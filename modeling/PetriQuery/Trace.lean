/-!
# Computations with a log

A computation of the type `Traced ε α` ends with a value or with a failure and leaves log records
behind, in the order in which they were written. What was written before a failure stays in the log.

Main facts: `Traced ε` is a lawful monad, the log of a sequence is the log of its first part
followed by that of its second part if the first one succeeds (`log_bind_of_ok`), and `foldFrom` is
the monadic fold over a list (`foldFrom_eq_foldlM`).
-/

set_option autoImplicit false

namespace PetriQuery

/-- How grave a log record is, the gravest first. -/
inductive Level where
  | error
  | warn
  | info
  | debug
  | trace
deriving DecidableEq, Repr

/-- The place of a level in their order. -/
def Level.rank : Level → Nat
  | .error => 1
  | .warn => 2
  | .info => 3
  | .debug => 4
  | .trace => 5

/-- The name of a level. -/
def Level.name : Level → String
  | .error => "ERROR"
  | .warn => "WARN"
  | .info => "INFO"
  | .debug => "DEBUG"
  | .trace => "TRACE"

/-- A log record. -/
structure Record where
  level : Level
  message : String
deriving DecidableEq, Repr

/-- Whether a record is at least as grave as a level. -/
def Record.isUpTo (level : Level) (record : Record) : Bool := record.level.rank ≤ level.rank

/-- A computation that writes log records and ends with a value or a failure. -/
structure Traced (ε α : Type) where
  log : List Record
  result : Except ε α

namespace Traced

variable {ε ε' α β : Type}

/-- Two computations are equal if they write the same log and end alike. -/
@[ext]
theorem ext {x y : Traced ε α} (log : x.log = y.log) (result : x.result = y.result) : x = y := by
  cases x
  cases y
  simp_all

/-- Goes on with the value of a computation. -/
protected def bind (x : Traced ε α) (f : α → Traced ε β) : Traced ε β :=
  match x.result with
  | .ok value => ⟨x.log ++ (f value).log, (f value).result⟩
  | .error failure => ⟨x.log, .error failure⟩

instance : Monad (Traced ε) where
  pure value := ⟨[], .ok value⟩
  bind := Traced.bind

/-- Writes one record. -/
def note (level : Level) (message : String) : Traced ε Unit := ⟨[⟨level, message⟩], .ok ()⟩

/-- Fails without a record. -/
def fail (failure : ε) : Traced ε α := ⟨[], .error failure⟩

/-- Fails and writes one record of the level `error`. -/
def refuse (message : String) (failure : ε) : Traced ε α :=
  ⟨[⟨.error, message⟩], .error failure⟩

/-- Changes the failure of a computation, if it fails. -/
def mapError (f : ε → ε') (x : Traced ε α) : Traced ε' α := ⟨x.log, x.result.mapError f⟩

/-! ## Laws -/

/-- A value alone writes nothing. -/
@[simp] theorem log_pure (value : α) : (pure value : Traced ε α).log = [] := rfl

/-- A value alone ends with that value. -/
@[simp] theorem result_pure (value : α) : (pure value : Traced ε α).result = .ok value := rfl

/-- Going on from a value alone is the second part. -/
@[simp] theorem pure_bind' (value : α) (f : α → Traced ε β) : (pure value >>= f) = f value := rfl

/-- Changing the failure changes the failure of the result. -/
@[simp] theorem result_mapError (f : ε → ε') (x : Traced ε α) :
    (x.mapError f).result = x.result.mapError f := rfl

/-- Changing the failure leaves the log alone. -/
@[simp] theorem log_mapError (f : ε → ε') (x : Traced ε α) : (x.mapError f).log = x.log := rfl

/-- Going on from a value writes the log of both parts. -/
theorem log_bind_of_ok {x : Traced ε α} {value : α} (f : α → Traced ε β)
    (h : x.result = .ok value) : (x >>= f).log = x.log ++ (f value).log := by
  change (Traced.bind x f).log = _
  rw [Traced.bind, h]

/-- Going on from a value ends as the second part does. -/
theorem result_bind_of_ok {x : Traced ε α} {value : α} (f : α → Traced ε β)
    (h : x.result = .ok value) : (x >>= f).result = (f value).result := by
  change (Traced.bind x f).result = _
  rw [Traced.bind, h]

/-- Nothing follows a failure. -/
theorem bind_of_error {x : Traced ε α} {failure : ε} (f : α → Traced ε β)
    (h : x.result = .error failure) : (x >>= f) = ⟨x.log, .error failure⟩ := by
  change Traced.bind x f = _
  rw [Traced.bind, h]

/-- The result of a sequence is the sequence of the results. -/
theorem result_bind (x : Traced ε α) (f : α → Traced ε β) :
    (x >>= f).result = x.result.bind fun value => (f value).result := by
  cases h : x.result with
  | ok value => rw [result_bind_of_ok f h]; rfl
  | error failure => rw [bind_of_error f h]; rfl

/-- A computation followed by nothing is itself. -/
theorem map_id_eq (x : Traced ε α) : id <$> x = x := by
  obtain ⟨log, result⟩ := x
  cases result with
  | ok value => simp [Functor.map, Traced.bind]
  | error failure => rfl

/-- The parts of a sequence can be grouped at will. -/
theorem bind_bind {γ : Type} (x : Traced ε α) (f : α → Traced ε β) (g : β → Traced ε γ) :
    (x >>= f) >>= g = x >>= fun value => f value >>= g := by
  obtain ⟨log, result⟩ := x
  cases result with
  | error failure => rfl
  | ok value =>
    change Traced.bind (Traced.bind _ f) g = Traced.bind _ fun value => Traced.bind (f value) g
    cases h : (f value).result with
    | ok next => simp [Traced.bind, h]
    | error failure => simp [Traced.bind, h]

instance : LawfulMonad (Traced ε) :=
  LawfulMonad.mk' _ (fun x => map_id_eq x) (fun _ _ => rfl) (fun x f g => bind_bind x f g)

/-! ## Folds over long lists -/

/-- Runs `step` along a list, from the state `state` on. The records written so far are in `done`,
the last one first. -/
def foldFrom {σ : Type} (step : σ → α → Traced ε σ) (done : List Record) (state : σ) :
    List α → Traced ε σ
  | [] => ⟨done.reverse, .ok state⟩
  | item :: items =>
    match step state item with
    | ⟨log, .ok state⟩ => foldFrom step (log.reverseAux done) state items
    | ⟨log, .error failure⟩ => ⟨(log.reverseAux done).reverse, .error failure⟩

/-- The records written before a fold stand in front of its log and change nothing else. -/
theorem foldFrom_eq {σ : Type} (step : σ → α → Traced ε σ) (done : List Record) (state : σ)
    (items : List α) :
    foldFrom step done state items
      = ⟨done.reverse ++ (items.foldlM step state).log, (items.foldlM step state).result⟩ := by
  induction items generalizing done state with
  | nil => simp [foldFrom]
  | cons item items ih =>
    -- The records of this step go into `done`, and the rest is folded with that.
    rw [List.foldlM_cons]
    simp only [foldFrom]
    cases h : step state item with
    | mk log result =>
      cases result with
      | ok next =>
        rw [log_bind_of_ok _ (by rfl : (Traced.mk log (.ok next) : Traced ε σ).result = .ok next),
          result_bind_of_ok _ (by rfl : (Traced.mk log (.ok next) : Traced ε σ).result = .ok next)]
        simp [ih, List.reverseAux_eq]
      | error failure =>
        rw [bind_of_error _
          (by rfl : (Traced.mk log (.error failure) : Traced ε σ).result = .error failure)]
        simp [List.reverseAux_eq]

/-- A fold that starts with an empty log is the monadic fold. -/
theorem foldFrom_eq_foldlM {σ : Type} (step : σ → α → Traced ε σ) (state : σ) (items : List α) :
    foldFrom step [] state items = items.foldlM step state := by
  rw [foldFrom_eq]
  rfl

end Traced

end PetriQuery
