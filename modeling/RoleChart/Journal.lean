/-!
What a computation reports while it runs. A `Logged` computation gives its outcome together with
the entries that it wrote on the way, in order; running one after another appends the entries, and
a failure keeps those written before it. Grouping does not matter (`bind_bind`).
-/
namespace RoleChart

namespace Journal

/-- How much an entry matters. -/
inductive Level where
  | error
  | warn
  | info
  | debug
  | trace
  deriving Repr, BEq, DecidableEq, Inhabited

/-- The rank of a level: the more severe, the lower. -/
def Level.rank : Level → Nat
  | .error => 0
  | .warn => 1
  | .info => 2
  | .debug => 3
  | .trace => 4

/-- The value of a field of an entry. -/
inductive Datum where
  | text (value : String)
  | count (value : Nat)
  | flag (value : Bool)
  deriving Repr, BEq, DecidableEq, Inhabited

/-- One thing reported: how much it matters, what happened, and the particulars by name. -/
structure Entry where
  level : Level
  message : String
  fields : List (String × Datum)
  deriving Repr, BEq, DecidableEq, Inhabited

/-- The entries at `level` or more severe. -/
def atLevel (level : Level) (entries : List Entry) : List Entry :=
  entries.filter fun entry => entry.level.rank ≤ level.rank

end Journal

/-- An outcome together with the entries written on the way to it. -/
structure Logged (ε α : Type) where
  entries : List Journal.Entry
  outcome : Except ε α
  deriving Inhabited

namespace Logged

variable {ε ε' α β : Type}

/-- Succeeds and writes nothing. -/
protected def pure (a : α) : Logged ε α := ⟨[], .ok a⟩

/-- Goes on with the value of `x`; stops at its failure. -/
protected def bind (x : Logged ε α) (f : α → Logged ε β) : Logged ε β :=
  match x.outcome with
  | .error e => ⟨x.entries, .error e⟩
  | .ok a => ⟨x.entries ++ (f a).entries, (f a).outcome⟩

instance : Monad (Logged ε) where
  pure := Logged.pure
  bind := Logged.bind

instance : MonadExcept ε (Logged ε) where
  throw e := ⟨[], .error e⟩
  tryCatch x handle := match x.outcome with
    | .ok a => ⟨x.entries, .ok a⟩
    | .error e => ⟨x.entries ++ (handle e).entries, (handle e).outcome⟩

/-- Fails and writes nothing. -/
def fail (e : ε) : Logged ε α := ⟨[], .error e⟩

/-- Takes an outcome that was reached without writing anything. -/
def ofExcept (outcome : Except ε α) : Logged ε α := ⟨[], outcome⟩

/-- Writes one entry. -/
def write (entry : Journal.Entry) : Logged ε Unit := ⟨[entry], .ok ()⟩

/-- Restates the failure, if there is one. -/
def mapError (f : ε → ε') (x : Logged ε α) : Logged ε' α :=
  ⟨x.entries, x.outcome.mapError f⟩

@[simp] theorem outcome_pure (a : α) : (pure a : Logged ε α).outcome = .ok a := rfl

@[simp] theorem outcome_bind (x : Logged ε α) (f : α → Logged ε β) :
    (x >>= f).outcome = x.outcome.bind fun a => (f a).outcome := by
  show (Logged.bind x f).outcome = _
  unfold Logged.bind
  cases x.outcome <;> rfl

@[simp] theorem outcome_map (f : α → β) (x : Logged ε α) :
    (f <$> x).outcome = x.outcome.map f := by
  show (x >>= fun a => pure (f a)).outcome = _
  rw [outcome_bind]
  cases x.outcome <;> rfl

@[simp] theorem outcome_fail (e : ε) : (fail e : Logged ε α).outcome = .error e := rfl

@[simp] theorem outcome_ofExcept (r : Except ε α) : (ofExcept r).outcome = r := rfl

@[simp] theorem outcome_write (entry : Journal.Entry) :
    (write entry : Logged ε Unit).outcome = .ok () := rfl

@[simp] theorem outcome_mapError (f : ε → ε') (x : Logged ε α) :
    (x.mapError f).outcome = x.outcome.mapError f := rfl

/-! ## One after the other -/

variable {γ : Type}

theorem bind_of_ok (entries : List Journal.Entry) (a : α) (f : α → Logged ε β) :
    (⟨entries, .ok a⟩ : Logged ε α) >>= f = ⟨entries ++ (f a).entries, (f a).outcome⟩ := rfl

theorem fail_bind (e : ε) (f : α → Logged ε β) : (fail e : Logged ε α) >>= f = fail e := rfl

theorem map_id (x : Logged ε α) : id <$> x = x := by
  obtain ⟨entries, outcome⟩ := x
  cases outcome with
  | error e => rfl
  | ok a =>
    show (⟨entries ++ [], .ok a⟩ : Logged ε α) = _
    rw [List.append_nil]

theorem bind_bind (x : Logged ε α) (f : α → Logged ε β) (g : β → Logged ε γ) :
    x >>= f >>= g = x >>= fun a => f a >>= g := by
  obtain ⟨entries, outcome⟩ := x
  cases outcome with
  | error e => rfl
  | ok a =>
    rw [bind_of_ok, bind_of_ok]
    generalize f a = y
    obtain ⟨entries', outcome'⟩ := y
    cases outcome' with
    | error e => rfl
    | ok b =>
      rw [bind_of_ok, bind_of_ok, List.append_assoc]

instance : LawfulMonad (Logged ε) :=
  LawfulMonad.mk' (Logged ε) map_id (fun _ _ => rfl) bind_bind

end Logged

end RoleChart
