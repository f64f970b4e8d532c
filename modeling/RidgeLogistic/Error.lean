import RidgeLogistic.Decimal.Shortest

/-!
# What can go wrong

An error is the cause with the values that show it; the wording is one function on
the causes. Numbers in a message are written with the fewest digits that read back.

A search that runs out of trials is no error. It is an outcome of the search, and
the run that met it goes on.

The last two sections are about outcomes of any kind: what is known of the parts of a
call that succeeded or was refused, and of one call made for each entry of a list.
-/

namespace RidgeLogistic

/-- The role in which a vector was handed over, for the message that its length
does not fit. -/
inductive Operand where
  | beta
  | betaStart
  | thetaStart
  | coefficients
  deriving DecidableEq, Repr

def Operand.text : Operand → String
  | .beta => "beta"
  | .betaStart => "beta_init"
  | .thetaStart => "theta_init"
  | .coefficients => "coefficients"

/-- Sizes that do not fit together, or leave nothing to work on. -/
inductive DimensionFault where
  /-- A table and its responses differ in number. -/
  | responses (rows entries : Nat)
  | noSamples
  /-- A vector is not as long as the table is wide. -/
  | width (columns : Nat) (operand : Operand) (length : Nat)
  /-- A table does not have the announced shape. -/
  | shape (rows columns samples features : Nat)
  | emptyTable
  /-- The features and the labels of a dataset differ in number. -/
  | labels (rows given : Nat)
  /-- Nothing to take column statistics of. -/
  | noRows
  /-- A table is not as wide as the one the statistics come from. -/
  | statistics (fitted given : Nat)
  deriving DecidableEq, Repr

def DimensionFault.text : DimensionFault → String
  | .responses rows entries => s!"X has {rows} rows but y has {entries} entries"
  | .noSamples => "X must have at least one sample"
  | .width columns operand length =>
    s!"X has {columns} columns but {operand.text} has length {length}"
  | .shape rows columns samples features =>
    s!"X is {rows}x{columns} but {samples} samples and {features} features were given"
  | .emptyTable => "X must have at least one sample and one feature"
  | .labels rows given => s!"features have {rows} rows but there are {given} labels"
  | .noRows => "cannot fit a scaler on zero rows"
  | .statistics fitted given =>
    s!"scaler was fitted on {fitted} columns, got {given}"

/-- A number that lies outside the range that its use allows. -/
inductive HyperparameterFault (α : Type) where
  | penalty (value : α)
  | step (value : α)
  | decrease (value : α)
  | shrink (value : α)
  | maxTrials
  | testSize (value : α)
  /-- Neither the data nor the penalty curves the objective. -/
  | noCurvature
  deriving DecidableEq, Repr

def HyperparameterFault.text : HyperparameterFault Float → String
  | .penalty value =>
    "lambda must be finite and non-negative, got " ++ Decimal.shortest value
  | .step value =>
    "step size must be finite and positive, got " ++ Decimal.shortest value
  | .decrease value =>
    "line search alpha must be in (0, 0.5], got " ++ Decimal.shortest value
  | .shrink value =>
    "line search decay must be in (0, 1), got " ++ Decimal.shortest value
  | .maxTrials => "line search max_iter must be at least 1"
  | .testSize value =>
    "test_size must be between 0 and 1, got " ++ Decimal.shortest value
  | .noCurvature => "X is all zeros and lambda is 0, no finite step size exists"

/-- Why a computation was refused, before or instead of running it. -/
inductive Error (α : Type) where
  | dimension (fault : DimensionFault)
  | hyperparameter (fault : HyperparameterFault α)
  /-- A response that is no label: the first such one, with its place. -/
  | label (index : Nat) (value : α)
  /-- Something was asked of a model or a scaler that only a fit provides. -/
  | notFitted
  | noFiniteEigenvalue
  deriving DecidableEq, Repr

def Error.message : Error Float → String
  | .dimension fault => "invalid dimension: " ++ fault.text
  | .hyperparameter fault => "invalid hyperparameter: " ++ fault.text
  | .label index value =>
    s!"label at index {index} is " ++ Decimal.shortest value ++ ", expected -1 or +1"
  | .notFitted => "model not fitted, call fit() first"
  | .noFiniteEigenvalue =>
    "eigenvalue computation failed: no finite eigenvalue of XᵀX / N"

/-! ## Outcomes -/

/-- What succeeds went on from a first part that succeeded. -/
theorem exists_of_bind_eq_ok {ε β γ : Type} {first : Except ε β} {next : β → Except ε γ}
    {c : γ} (h : (first >>= next) = .ok c) : ∃ b, first = .ok b ∧ next b = .ok c := by
  cases first with
  | error fault => injection h
  | ok b => exact ⟨b, rfl, h⟩

/-- What is refused is refused in its first part, or goes on from there to be refused. -/
theorem or_of_bind_eq_error {ε β γ : Type} {first : Except ε β} {next : β → Except ε γ}
    {e : ε} (h : (first >>= next) = .error e) :
    first = .error e ∨ ∃ b, first = .ok b ∧ next b = .error e := by
  cases first with
  | error fault => exact Or.inl (congrArg Except.error (Except.error.inj h))
  | ok b => exact Or.inr ⟨b, rfl, h⟩

theorem exists_of_map_eq_ok {ε β γ : Type} {first : Except ε β} {f : β → γ} {c : γ}
    (h : f <$> first = .ok c) : ∃ b, first = .ok b ∧ f b = c := by
  cases first with
  | error fault => injection h
  | ok b => exact ⟨b, rfl, Except.ok.inj h⟩

/-- What a call is refused for, if it is. -/
def refusal? {ε β : Type} : Except ε β → Option ε
  | .ok _ => none
  | .error fault => some fault

theorem refusal?_eq_some_iff {ε β : Type} {result : Except ε β} {fault : ε} :
    refusal? result = some fault ↔ result = .error fault := by
  cases result <;> simp [refusal?]

theorem refusal?_eq_none_iff {ε β : Type} {result : Except ε β} :
    refusal? result = none ↔ ∃ b, result = .ok b := by
  cases result <;> simp [refusal?]

/-- The first part is refused first, and what follows is refused for one reason or for none. -/
theorem refusal?_bind_eq_or {ε β γ : Type} {first : Except ε β} {next : β → Except ε γ}
    {later : Option ε} (h : ∀ b, first = .ok b → refusal? (next b) = later) :
    refusal? (first >>= next) = (refusal? first).or later := by
  cases first with
  | error fault => rfl
  | ok b => exact h b rfl

/-- What follows is never refused. -/
theorem refusal?_bind_of_ok {ε β γ : Type} {first : Except ε β} {next : β → Except ε γ}
    (h : ∀ b, first = .ok b → refusal? (next b) = none) :
    refusal? (first >>= next) = refusal? first :=
  (refusal?_bind_eq_or h).trans Option.or_none

/-! ## One call for each entry of a list -/

section

variable {ε β γ : Type} {f : β → Except ε γ} {bs : List β} {cs : List γ}

theorem mapM_eq_ok_iff : bs.mapM f = .ok cs ↔ bs.map f = cs.map .ok := by
  induction bs generalizing cs with
  | nil => cases cs <;> simp [pure, Except.pure]
  | cons b bs ih =>
      rw [List.mapM_cons]
      constructor
      · intro h
        obtain ⟨c, hc, h⟩ := exists_of_bind_eq_ok h
        obtain ⟨rest, hrest, h⟩ := exists_of_bind_eq_ok h
        obtain rfl := Except.ok.inj h
        rw [List.map_cons, List.map_cons, hc, ih.1 hrest]
      · intro h
        cases cs with
        | nil => injection h
        | cons c rest =>
            injection h with hc hrest
            rw [hc, ih.2 hrest]
            rfl

theorem mapM_eq_ok_map {g : β → γ} (h : ∀ b, f b = .ok (g b)) (bs : List β) :
    bs.mapM f = .ok (bs.map g) := by
  rw [mapM_eq_ok_iff, List.map_map]
  exact List.map_congr_left fun b _ => h b

theorem exists_mapM_eq_ok (h : ∀ b ∈ bs, ∃ c, f b = .ok c) : ∃ cs, bs.mapM f = .ok cs := by
  induction bs with
  | nil => exact ⟨[], rfl⟩
  | cons b bs ih =>
      obtain ⟨c, hc⟩ := h b List.mem_cons_self
      obtain ⟨rest, hrest⟩ := ih fun b' hb' => h b' (List.mem_cons_of_mem b hb')
      refine ⟨c :: rest, ?_⟩
      rw [List.mapM_cons, hc, hrest]
      rfl

/-- The first call decides, if the later ones are refused like it. -/
theorem refusal?_mapM {b : β} (h : ∀ b' ∈ bs, refusal? (f b') = refusal? (f b)) :
    refusal? ((b :: bs).mapM f) = refusal? (f b) := by
  rw [List.mapM_cons]
  cases hb : f b with
  | error fault => rfl
  | ok c =>
      have hlater : ∀ b' ∈ bs, ∃ c', f b' = .ok c' := by
        intro b' hb'
        rw [← refusal?_eq_none_iff, h b' hb', hb]
        rfl
      obtain ⟨rest, hrest⟩ := exists_mapM_eq_ok hlater
      rw [hrest]
      rfl

theorem length_of_mapM (h : bs.mapM f = .ok cs) : cs.length = bs.length := by
  have hlength := congrArg List.length (mapM_eq_ok_iff.1 h)
  rwa [List.length_map, List.length_map, eq_comm] at hlength

/-- The answer of each call stands where its entry does. -/
theorem exists_getElem?_of_mapM (h : bs.mapM f = .ok cs) {k : Nat} {b : β}
    (hb : bs[k]? = some b) : ∃ c, cs[k]? = some c ∧ f b = .ok c := by
  have hentry : (bs.map f)[k]? = (cs.map .ok)[k]? := by rw [mapM_eq_ok_iff.1 h]
  rw [List.getElem?_map, List.getElem?_map, hb] at hentry
  obtain ⟨c, hc, hf⟩ := Option.map_eq_some_iff.1 hentry.symm
  exact ⟨c, hc, hf.symm⟩

end

end RidgeLogistic
