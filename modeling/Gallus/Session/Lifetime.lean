import Gallus.Basic
import Gallus.Lib.Trans
import Mathlib.Data.List.Nodup
import Mathlib.Logic.Function.Basic

/-!
# The life of TLS sessions (`session_tls.c`)

A session owns its `struct tls_ctx`, three strings and, once it has them, an `SSL_CTX` and an `SSL`.
The lock `tls.s_lck` is one for all sessions: the constructor of the module makes it, and each
creation copies the strings of the configuration under it.

* `sessionTlsInit`, `connectTls`, `destroyTls`: the functions, each with what it allocates and
  frees. `step`: the calls for any number of sessions.
* `Sess.Open`, `Sess.Closed`: a session that owns what its pointers say, and one that owns nothing.
  `sessionTlsInit_cases`: every failure of a creation leaves nothing.
* `Disposes`: the session to destroy has its `SSL_CTX`. The others lose their strings, and one that
  is neither passive nor active has no certificate to free.
* `lifetimes_iff`: `destroyTls` also destroys `tls.s_lck`, so that the lock is kept exactly in the
  runs that destroy no session.
-/

namespace Gallus
namespace SessionTls

/-- What a session allocates. -/
inductive Block
  | ctx | caDir | cert | key | sslCtx | ssl
  deriving DecidableEq, Repr

/-- A pointer of `struct tls_ctx`. -/
inductive Ptr
  /-- As `malloc` has left it. -/
  | unset
  | null
  | block
  deriving DecidableEq, Repr

/-- `SESSION_PASSIVE` and `SESSION_ACTIVE` of the session type. -/
structure Kind where
  passive : Bool
  active : Bool
  deriving DecidableEq, Repr

/-- `struct tls_ctx`. -/
structure TlsCtx where
  caDir : Ptr
  cert : Ptr
  key : Ptr
  ssl : Ptr
  ctx : Ptr

/-- A session, with how often each of its blocks has been allocated and freed. -/
structure Sess where
  kind : Kind
  /-- `s->ctx`, which is not `NULL` while the session is there. -/
  ctx : Option TlsCtx
  allocs : Block → Nat
  frees : Block → Nat

namespace Sess

def new (kind : Kind) : Sess := ⟨kind, none, fun _ => 0, fun _ => 0⟩

def alloc (s : Sess) (b : Block) : Sess :=
  { s with allocs := Function.update s.allocs b (s.allocs b + 1) }

def free (s : Sess) (b : Block) : Sess :=
  { s with frees := Function.update s.frees b (s.frees b + 1) }

/-- `free`, `SSL_free` or `SSL_CTX_free` of a pointer. -/
def freePtr (s : Sess) (b : Block) : Ptr → Sess
  | .null => s
  | .unset | .block => s.free b

end Sess

/-- What `session_tls_init` meets: the results of `valid_path`, of `malloc` and `strdup`, and of
`get_server_ssl_ctx`. -/
structure InitEnv where
  caDirPath : Result
  certPath : Result
  keyPath : Result
  ctx : Bool
  caDir : Bool
  cert : Bool
  key : Bool
  serverCtx : Bool

/-- The end of a creation for want of memory. -/
def initFails (s : Sess) (bs : List Block) : Result × Sess :=
  (Result.noMemory, bs.foldl Sess.free s)

/-- `session_tls_init`. Neither the result of `gallus_rwlock_writer_lock` is looked at nor that of
`gallus_rwlock_unlock`. -/
def sessionTlsInit (kind : Kind) (env : InitEnv) : Result × Sess :=
  let s := Sess.new kind
  if env.caDirPath ≠ Result.ok ∨ env.certPath ≠ Result.ok ∨ env.keyPath ≠ Result.ok then
    (Result.invalidArgs, s)
  else if env.ctx = false then initFails s []
  else
    let s := s.alloc .ctx
    if env.caDir = false then initFails s [.ctx]
    else
      let s := s.alloc .caDir
      if kind.passive = true ∨ kind.active = true then
        if env.cert = false then initFails s [.caDir, .ctx]
        else
          let s := s.alloc .cert
          if env.key = false then initFails s [.cert, .caDir, .ctx]
          else
            let s := s.alloc .key
            if kind.passive = true then
              if env.serverCtx = false then initFails s [.key, .cert, .caDir, .ctx]
              else (Result.ok, { s.alloc .sslCtx with
                ctx := some ⟨.block, .block, .block, .null, .block⟩ })
            else (Result.ok, { s with ctx := some ⟨.block, .block, .block, .null, .null⟩ })
      -- `cert` is not written.
      else (Result.ok, { s with ctx := some ⟨.block, .unset, .null, .null, .null⟩ })

/-- What `connect_tls` does if there is no `SSL_CTX`: `made` is whether `get_client_ssl_ctx` makes
one. -/
def addClientCtx (made : Bool) (s : Sess) (c : TlsCtx) : Sess × TlsCtx :=
  if c.ctx = .null ∧ made = true then
    ({ s.alloc .sslCtx with ctx := some { c with ctx := .block } }, { c with ctx := .block })
  else (s, c)

/-- And if there is one, but no `SSL`: `made` is whether `SSL_new` makes one. -/
def addSsl (made : Bool) (s : Sess) (c : TlsCtx) : Sess × TlsCtx :=
  if c.ctx ≠ .null ∧ c.ssl = .null ∧ made = true then
    ({ s.alloc .ssl with ctx := some { c with ssl := .block } }, { c with ssl := .block })
  else (s, c)

/-- `connect_tls`, up to the handshake. -/
def connectTls (clientCtx ssl : Bool) (s : Sess) (c : TlsCtx) : Sess :=
  let r := addClientCtx clientCtx s c
  (addSsl ssl r.1 r.2).1

/-- `destroy_tls`, but for the lock. -/
def destroyTls (s : Sess) (c : TlsCtx) : Sess :=
  let s := if c.ctx ≠ .null then
    ((((s.freePtr .caDir c.caDir).freePtr .cert c.cert).freePtr .key c.key).freePtr .ssl
      c.ssl).freePtr .sslCtx c.ctx else s
  { s.free .ctx with ctx := none }

/-- The module and its sessions. -/
structure Tls (ι : Type) where
  /-- `tls.s_lck != NULL`. -/
  lck : Bool
  sess : ι → Option Sess

def Tls.start {ι : Type} : Tls ι := ⟨true, fun _ => none⟩

/-- A call. -/
inductive Event (ι : Type)
  /-- `session_create` of a new session. -/
  | create (i : ι) (kind : Kind) (env : InitEnv)
  | connect (i : ι) (clientCtx ssl : Bool)
  | destroy (i : ι)

variable {ι : Type}

/-- The session `i` with its context, while it is there. -/
def Tls.find (t : Tls ι) (i : ι) : Option (Sess × TlsCtx) := do
  let s ← t.sess i
  let c ← s.ctx
  return (s, c)

section

variable [DecidableEq ι]

def Tls.setSess (t : Tls ι) (i : ι) (s : Sess) : Tls ι :=
  { t with sess := Function.update t.sess i (some s) }

/-- One call. -/
def step (t : Tls ι) : Event ι → Option (Tls ι)
  | .create i kind env =>
    if (t.sess i).isNone then some (t.setSess i (sessionTlsInit kind env).2) else none
  | .connect i clientCtx ssl =>
    (t.find i).map fun (s, c) => t.setSess i (connectTls clientCtx ssl s c)
  | .destroy i =>
    -- `gallus_rwlock_destroy(&(tls.s_lck))`
    (t.find i).map fun (s, c) => { t.setSess i (destroyTls s c) with lck := false }

end

/-! ## One session -/

/-- How often a session owns what a pointer says. -/
def Ptr.owned : Ptr → Nat
  | .block => 1
  | .unset | .null => 0

/-- What a session owns through its context. -/
def TlsCtx.owned (c : TlsCtx) : Block → Nat
  | .ctx => 1
  | .caDir => c.caDir.owned
  | .cert => c.cert.owned
  | .key => c.key.owned
  | .sslCtx => c.ctx.owned
  | .ssl => c.ssl.owned

/-- A session that is there. -/
structure Sess.Open (s : Sess) (c : TlsCtx) : Prop where
  ctx : s.ctx = some c
  allocs : s.allocs = c.owned
  frees : s.frees = fun _ => 0
  caDir : c.caDir = .block
  strings : if s.kind.passive = true ∨ s.kind.active = true then
    c.cert = .block ∧ c.key = .block else c.cert = .unset
  sslCtx : c.ctx = .null ∨ c.ctx = .block
  ssl : c.ssl = .null ∨ c.ssl = .block

/-- A session that is gone, and has freed each of its blocks once. -/
structure Sess.Closed (s : Sess) : Prop where
  ctx : s.ctx = none
  frees : s.frees = s.allocs
  once : ∀ b, s.allocs b ≤ 1

theorem foldl_free (bs : List Block) (s : Sess) :
    bs.foldl Sess.free s = { s with frees := fun b => s.frees b + bs.count b } := by
  induction bs generalizing s with
  | nil => rfl
  | cons b bs ih =>
    rw [List.foldl_cons, ih]
    simp only [Sess.free, Sess.mk.injEq, true_and]
    funext b'
    by_cases h : b' = b
    · subst h
      rw [Function.update_self, List.count_cons_self]
      omega
    · rw [Function.update_of_ne h, List.count_cons_of_ne (Ne.symm h)]

/-- A creation that frees what it has allocated. -/
theorem initFails_closed {s : Sess} {bs : List Block} (hctx : s.ctx = none)
    (hallocs : s.allocs = fun b => bs.count b) (hfrees : s.frees = fun _ => 0) (hbs : bs.Nodup) :
    (initFails s bs).2.Closed := by
  unfold initFails
  rw [foldl_free]
  refine ⟨hctx, ?_, fun b => ?_⟩
  · funext b
    simp only [hfrees, hallocs, Nat.zero_add]
  · simp only [hallocs]
    exact List.nodup_iff_count_le_one.mp hbs b

/-- A creation gives a session that owns its blocks, or one that has given them all back. -/
theorem sessionTlsInit_cases (kind : Kind) (env : InitEnv) :
    (∃ c, (sessionTlsInit kind env).2.Open c) ∨ (sessionTlsInit kind env).2.Closed := by
  unfold sessionTlsInit
  dsimp only
  by_cases hpaths :
      env.caDirPath ≠ Result.ok ∨ env.certPath ≠ Result.ok ∨ env.keyPath ≠ Result.ok
  · rw [if_pos hpaths]
    exact .inr ⟨rfl, rfl, fun _ => Nat.zero_le 1⟩
  rw [if_neg hpaths]
  by_cases hctx : env.ctx = false
  · rw [if_pos hctx]
    exact .inr ⟨rfl, rfl, fun _ => Nat.zero_le 1⟩
  rw [if_neg hctx]
  by_cases hca : env.caDir = false
  · rw [if_pos hca]
    exact .inr (initFails_closed rfl (by funext b; cases b <;> rfl) rfl (by decide))
  rw [if_neg hca]
  by_cases hkind : kind.passive = true ∨ kind.active = true
  · rw [if_pos hkind]
    -- A passive or an active session also has a certificate and a key.
    by_cases hcert : env.cert = false
    · rw [if_pos hcert]
      exact .inr (initFails_closed rfl (by funext b; cases b <;> rfl) rfl (by decide))
    rw [if_neg hcert]
    by_cases hkey : env.key = false
    · rw [if_pos hkey]
      exact .inr (initFails_closed rfl (by funext b; cases b <;> rfl) rfl (by decide))
    rw [if_neg hkey]
    split_ifs with hpassive hserver
    · exact .inr (initFails_closed rfl (by funext b; cases b <;> rfl) rfl (by decide))
    · exact .inl ⟨_, rfl, by funext b; cases b <;> rfl, rfl, rfl, (if_pos hkind).mpr ⟨rfl, rfl⟩,
        .inr rfl, .inl rfl⟩
    · exact .inl ⟨_, rfl, by funext b; cases b <;> rfl, rfl, rfl, (if_pos hkind).mpr ⟨rfl, rfl⟩,
        .inl rfl, .inl rfl⟩
  · rw [if_neg hkind]
    exact .inl ⟨_, rfl, by funext b; cases b <;> rfl, rfl, rfl, (if_neg hkind).mpr rfl,
      .inl rfl, .inl rfl⟩

section Calls

variable {s : Sess} {c : TlsCtx}

/-- One block more. -/
theorem alloc_allocs {c c' : TlsCtx} {b : Block} (h : s.allocs = c.owned)
    (hb : c'.owned b = c.owned b + 1) (hne : ∀ b', b' ≠ b → c'.owned b' = c.owned b') :
    (s.alloc b).allocs = c'.owned := by
  funext b'
  show Function.update s.allocs b (s.allocs b + 1) b' = c'.owned b'
  by_cases hbb : b' = b
  · subst hbb
    rw [Function.update_self, h, hb]
  · rw [Function.update_of_ne hbb, h, hne b' hbb]

theorem addClientCtx_open (h : s.Open c) (made : Bool) :
    (addClientCtx made s c).1.Open (addClientCtx made s c).2 := by
  unfold addClientCtx
  split_ifs with hif
  · refine ⟨rfl, alloc_allocs h.allocs ?_ ?_, h.frees, h.caDir, h.strings, .inr rfl, h.ssl⟩
    · simp [TlsCtx.owned, hif.1, Ptr.owned]
    · intro b hb
      cases b <;> first | rfl | exact absurd rfl hb
  · exact h

theorem addSsl_open (h : s.Open c) (made : Bool) :
    (addSsl made s c).1.Open (addSsl made s c).2 := by
  unfold addSsl
  split_ifs with hif
  · refine ⟨rfl, alloc_allocs h.allocs ?_ ?_, h.frees, h.caDir, h.strings, h.sslCtx, .inr rfl⟩
    · simp [TlsCtx.owned, hif.2.1, Ptr.owned]
    · intro b hb
      cases b <;> first | rfl | exact absurd rfl hb
  · exact h

/-- A connection adds what it allocates to what the session owns. -/
theorem connectTls_open (h : s.Open c) (clientCtx ssl : Bool) :
    ∃ c', (connectTls clientCtx ssl s c).Open c' :=
  ⟨_, addSsl_open (addClientCtx_open h clientCtx) ssl⟩

theorem owned_le_one (c : TlsCtx) (b : Block) : c.owned b ≤ 1 := by
  have hptr : ∀ p : Ptr, p.owned ≤ 1 := by
    rintro (_ | _ | _) <;> decide
  cases b <;> first | exact Nat.le_refl 1 | exact hptr _

/-- What a destruction frees. -/
def TlsCtx.freed (c : TlsCtx) : Block → Nat
  | .ctx => 1
  | .caDir => if c.ctx ≠ .null ∧ c.caDir ≠ .null then 1 else 0
  | .cert => if c.ctx ≠ .null ∧ c.cert ≠ .null then 1 else 0
  | .key => if c.ctx ≠ .null ∧ c.key ≠ .null then 1 else 0
  | .ssl => if c.ctx ≠ .null ∧ c.ssl ≠ .null then 1 else 0
  | .sslCtx => if c.ctx ≠ .null then 1 else 0

theorem freePtr_frees (s : Sess) (b : Block) (p : Ptr) : s.freePtr b p =
    { s with frees := fun b' => s.frees b' + if b' = b ∧ p ≠ .null then 1 else 0 } := by
  cases p
  case null => simp [Sess.freePtr]
  all_goals
    simp only [Sess.freePtr, Sess.free, Sess.mk.injEq, true_and]
    funext b'
    by_cases h : b' = b
    · subst h
      simp
    · simp [h]

theorem destroyTls_frees (h : s.Open c) : (destroyTls s c).frees = c.freed := by
  unfold destroyTls
  split_ifs with hctx
  · simp only [freePtr_frees, Sess.free, h.frees]
    funext b
    cases b <;> simp [TlsCtx.freed, hctx]
  · simp only [Sess.free, h.frees]
    funext b
    cases b <;> simp [TlsCtx.freed, hctx]

theorem destroyTls_allocs (h : s.Open c) : (destroyTls s c).allocs = c.owned := by
  unfold destroyTls
  split_ifs with hctx <;> simp [Sess.free, freePtr_frees, h.allocs]

/-- With its `SSL_CTX`, a session frees what it owns through a pointer that has been written. -/
theorem TlsCtx.freed_ptr {p : Ptr} (hctx : c.ctx ≠ .null) (hp : p = .null ∨ p = .block) :
    (if c.ctx ≠ .null ∧ p ≠ .null then 1 else 0) = p.owned := by
  rcases hp with rfl | rfl
  · exact if_neg fun h => h.2 rfl
  · exact if_pos ⟨hctx, Ptr.noConfusion⟩

/-- A session frees what it owns exactly if it has its `SSL_CTX` and a certificate. -/
theorem destroyTls_iff (h : s.Open c) :
    (destroyTls s c).frees = (destroyTls s c).allocs ↔
      (s.kind.passive = true ∨ s.kind.active = true) ∧ c.ctx ≠ .null := by
  have hstrings := h.strings
  rw [destroyTls_frees h, destroyTls_allocs h]
  constructor
  · intro heq
    have hca := congrFun heq .caDir
    have hcert := congrFun heq .cert
    simp only [TlsCtx.freed, TlsCtx.owned, h.caDir, Ptr.owned] at hca
    have hctx : c.ctx ≠ .null := fun hctx => by simp [hctx] at hca
    refine ⟨?_, hctx⟩
    by_contra hkind
    rw [if_neg hkind] at hstrings
    simp [TlsCtx.freed, TlsCtx.owned, hstrings, hctx, Ptr.owned] at hcert
  · rintro ⟨hkind, hctx⟩
    rw [if_pos hkind] at hstrings
    funext b
    cases b with
    | ctx => rfl
    | caDir => exact TlsCtx.freed_ptr hctx (.inr h.caDir)
    | cert => exact TlsCtx.freed_ptr hctx (.inr hstrings.1)
    | key => exact TlsCtx.freed_ptr hctx (.inr hstrings.2)
    | sslCtx =>
      have hblock : c.ctx = .block := h.sslCtx.resolve_left hctx
      show (if c.ctx ≠ .null then 1 else 0) = c.ctx.owned
      rw [if_pos hctx, hblock]
      rfl
    | ssl => exact TlsCtx.freed_ptr hctx h.ssl

end Calls

/-! ## Runs -/

/-- Each block of a session that is gone has been freed, once if it was allocated. -/
def FreedOnce (t : Tls ι) : Prop :=
  ∀ i s, t.sess i = some s → s.ctx = none → s.frees = s.allocs ∧ ∀ b, s.allocs b ≤ 1

/-- No session is destroyed. -/
def Keeps (e : Event ι) : Prop := ∀ i, e ≠ .destroy i

/-- The session that is destroyed is a passive or an active one and has its `SSL_CTX`. -/
def Disposes (t : Tls ι) (e : Event ι) : Prop :=
  ∀ i, e = .destroy i → ∀ s c, t.find i = some (s, c) →
    (s.kind.passive = true ∨ s.kind.active = true) ∧ c.ctx ≠ .null

/-- The sessions that are there own what their contexts say; the others own nothing. -/
def Sound (t : Tls ι) : Prop :=
  ∀ i s, t.sess i = some s → (∃ c, s.Open c) ∨ s.Closed

theorem find_eq_some {t : Tls ι} {i : ι} {s : Sess} {c : TlsCtx} (h : t.find i = some (s, c)) :
    t.sess i = some s ∧ s.ctx = some c := by
  simp only [Tls.find, Option.bind_eq_bind, Option.bind_eq_some_iff] at h
  obtain ⟨s', hs, c', hc, heq⟩ := h
  cases heq
  exact ⟨hs, hc⟩

section Steps

variable {t t' : Tls ι} {i : ι} {s : Sess} {c : TlsCtx} {e : Event ι}

theorem Sound.open_of_find (h : Sound t) (hf : t.find i = some (s, c)) : s.Open c := by
  obtain ⟨hs, hc⟩ := find_eq_some hf
  rcases h i s hs with ⟨c', hopen⟩ | hclosed
  · obtain rfl : c' = c := Option.some.inj (hopen.ctx.symm.trans hc)
    exact hopen
  · exact absurd (hclosed.ctx.symm.trans hc) nofun

theorem Sound.freedOnce (h : Sound t) : FreedOnce t := by
  intro i s hs hctx
  rcases h i s hs with ⟨c, hopen⟩ | hclosed
  · exact absurd (hopen.ctx.symm.trans hctx) nofun
  · exact ⟨hclosed.frees, hclosed.once⟩

variable [DecidableEq ι]

theorem Sound.setSess (h : Sound t) (hs : (∃ c, s.Open c) ∨ s.Closed) : Sound (t.setSess i s) := by
  intro j s' hj
  by_cases hji : j = i
  · subst hji
    obtain rfl : s = s' := Option.some.inj (by simpa [Tls.setSess] using hj)
    exact hs
  · exact h j s' (by simpa [Tls.setSess, Function.update_of_ne hji] using hj)

/-- One call. -/
theorem step_sound (h : Sound t) (hok : Disposes t e) (hstep : step t e = some t') : Sound t' := by
  cases e with
  | create i kind env =>
    simp only [step] at hstep
    split_ifs at hstep
    cases hstep
    exact h.setSess (sessionTlsInit_cases kind env)
  | connect i clientCtx ssl =>
    obtain ⟨⟨s, c⟩, hf, rfl⟩ := Option.map_eq_some_iff.mp hstep
    exact h.setSess (.inl (connectTls_open (h.open_of_find hf) clientCtx ssl))
  | destroy i =>
    obtain ⟨⟨s, c⟩, hf, rfl⟩ := Option.map_eq_some_iff.mp hstep
    have hopen := h.open_of_find hf
    have hclosed : (destroyTls s c).Closed :=
      ⟨rfl, (destroyTls_iff hopen).mpr (hok i rfl s c hf), fun b => by
        rw [destroyTls_allocs hopen]
        exact owned_le_one c b⟩
    exact h.setSess (.inr hclosed)

/-- A session that is destroyed without its `SSL_CTX` has not freed its strings. -/
theorem step_disposes (h : Sound t) (hstep : step t e = some t') (hfreed : FreedOnce t') :
    Disposes t e := by
  rintro i rfl s c hf
  simp only [step, hf, Option.map_some, Option.some.injEq] at hstep
  subst hstep
  refine (destroyTls_iff (h.open_of_find hf)).mp (hfreed i _ ?_ rfl).1
  simp [Tls.setSess]

theorem step_keeps (hstep : step t e = some t') (h : t.lck = true) :
    t'.lck = true ↔ Keeps e := by
  cases e with
  | create i kind env =>
    simp only [step] at hstep
    split_ifs at hstep
    cases hstep
    exact iff_of_true h nofun
  | connect i clientCtx ssl =>
    obtain ⟨⟨s, c⟩, hf, rfl⟩ := Option.map_eq_some_iff.mp hstep
    exact iff_of_true h nofun
  | destroy i =>
    obtain ⟨⟨s, c⟩, hf, rfl⟩ := Option.map_eq_some_iff.mp hstep
    exact iff_of_false nofun fun hkeeps => hkeeps i rfl

end Steps

/-- **The lock and the memory.** The lock is kept and the sessions free what they have allocated
exactly in the runs that destroy no session. What they have allocated is freed exactly in those
in which each session that is destroyed is a passive or an active one and has its `SSL_CTX`. -/
theorem lifetimes_iff [DecidableEq ι] {es : List (Event ι)} {t : Tls ι}
    (h : Trans.run step .start es = some t) :
    ((∀ es₁ t₁, es₁ <+: es → Trans.run step Tls.start es₁ = some t₁ →
      t₁.lck = true ∧ FreedOnce t₁) ↔ ∀ i, Event.destroy i ∉ es) ∧
    ((∀ es₁ t₁, es₁ <+: es → Trans.run step Tls.start es₁ = some t₁ → FreedOnce t₁) ↔
      Trans.Run step Disposes .start es t) := by
  have hstart : Sound (Tls.start : Tls ι) := by
    rintro i s ⟨⟩
  have hfreed := Trans.Run.iff_states (P := FreedOnce)
    (fun _ _ _ hs hok hst => step_sound hs hok hst) (fun _ _ _ hs hst => step_disposes hs hst)
    (fun _ => Sound.freedOnce) hstart h
  have hlock : (∀ es₁ t₁, es₁ <+: es → Trans.run step Tls.start es₁ = some t₁ → t₁.lck = true) ↔
      Trans.Run step (fun _ => Keeps) .start es t :=
    Trans.Run.iff_states (I := fun t => t.lck = true) (P := fun t => t.lck = true)
      (fun _ _ _ hs hok hst => (step_keeps hst hs).mpr hok)
      (fun _ _ _ hs hst => (step_keeps hst hs).mp) (fun _ => id) rfl h
  refine ⟨⟨fun hall i hi => ?_, fun hnone => ?_⟩, hfreed⟩
  · have hkeeps := hlock.mp fun es₁ t₁ hpre h₁ => (hall es₁ t₁ hpre h₁).1
    exact (Trans.Run.iff_forall_mem h).mp hkeeps _ hi i rfl
  · have hne : ∀ e ∈ es, Keeps e := fun e he i heq => hnone i (heq ▸ he)
    have hkept := hlock.mpr ((Trans.Run.iff_forall_mem h).mpr hne)
    have hdisposed := hfreed.mpr (.of_run (fun e he _ i heq => absurd heq (hne e he i)) h)
    exact fun es₁ t₁ hpre h₁ => ⟨hkept es₁ t₁ hpre h₁, hdisposed es₁ t₁ hpre h₁⟩

/-- Everything can be had. -/
def InitEnv.good : InitEnv :=
  ⟨Result.ok, Result.ok, Result.ok, true, true, true, true, true⟩

/-- A passive session, a second one for which there is no memory, and an active one that is
connected. -/
theorem lifetimes_iff_three : ∃ t, Trans.run step (Tls.start : Tls Nat)
      [.create 0 ⟨true, false⟩ .good, .create 1 ⟨true, false⟩ { InitEnv.good with key := false },
        .create 2 ⟨false, true⟩ .good, .connect 2 true true] = some t ∧
    t.lck = true ∧ FreedOnce t := by
  obtain ⟨t, ht⟩ : ∃ t, Trans.run step (Tls.start : Tls Nat)
      [.create 0 ⟨true, false⟩ .good, .create 1 ⟨true, false⟩ { InitEnv.good with key := false },
        .create 2 ⟨false, true⟩ .good, .connect 2 true true] = some t := ⟨_, rfl⟩
  exact ⟨t, ht, (lifetimes_iff ht).1.mpr (by simp) _ _ List.prefix_rfl ht⟩

/-- An active session that has not been connected, and a creation after its destruction. -/
theorem lifetimes_leak : ∃ t, Trans.run step (Tls.start : Tls Nat)
      [.create 0 ⟨false, true⟩ .good, .destroy 0, .create 1 ⟨true, false⟩ .good] = some t ∧
    t.lck = false ∧ ∃ s, t.sess 0 = some s ∧ s.ctx = none ∧
      s.allocs .caDir = 1 ∧ s.allocs .cert = 1 ∧ s.allocs .key = 1 ∧
      s.frees .caDir = 0 ∧ s.frees .cert = 0 ∧ s.frees .key = 0 ∧ ¬FreedOnce t := by
  refine ⟨_, rfl, rfl, _, rfl, rfl, rfl, rfl, rfl, rfl, rfl, rfl, fun h => ?_⟩
  exact absurd (congrFun (h 0 _ rfl rfl).1 .caDir) (by decide)

end SessionTls
end Gallus
