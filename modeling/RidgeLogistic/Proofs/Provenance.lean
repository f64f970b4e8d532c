import RidgeLogistic.Proofs.History

/-!
# Where the state of a model comes from

A model that has gone through any settings and any fits, refused ones among them, is
described without its history: its settings are of each kind the last choice, and what it
holds besides comes from one fit, the last that succeeded. A fit looks at nothing of the
model but its settings (`Estimator.fit_ofSettings`), so a model that was never fitted and has
the settings of that time gets the same from the same data. Settings that were chosen later
show in the settings alone.

The history is followed from its first action on. What the induction carries is a statement
about any model to begin with: either every fit that follows is refused, and all it held it
still holds, or one of them is the last to succeed (`Estimator.foldl_perform_cases`).
-/

namespace RidgeLogistic

variable {α : Type}

/-! ## The last choice of each kind -/

namespace Setting

def scheme? : Setting α → Option Scheme
  | .scheme value => some value
  | _ => none

def penalty? : Setting α → Option α
  | .penalty value => some value
  | _ => none

def step? : Setting α → Option α
  | .step value => some value
  | _ => none

def iterations? : Setting α → Option Nat
  | .iterations value => some value
  | _ => none

def search? : Setting α → Option (Backtracking α)
  | .search value => some value
  | _ => none

def intercept? : Setting α → Option Bool
  | .intercept value => some value
  | _ => none

end Setting

namespace Action

def setting? : Action α → Option (Setting α)
  | .set setting => some setting
  | .fit _ _ => none

/-- The last choice of one kind in a history. -/
def lastChoice {β : Type} (choice : Setting α → Option β) (history : List (Action α)) :
    Option β :=
  history.reverse.findSome? fun action => action.setting?.bind choice

theorem lastChoice_set_cons {β : Type} (choice : Setting α → Option β) (setting : Setting α)
    (history : List (Action α)) :
    lastChoice choice (.set setting :: history) =
      (lastChoice choice history).or (choice setting) := by
  rw [lastChoice, List.reverse_cons, List.findSome?_append, List.findSome?_singleton]
  rfl

theorem lastChoice_fit_cons {β : Type} (choice : Setting α → Option β) (x : Table α)
    (y : List α) (history : List (Action α)) :
    lastChoice choice (.fit x y :: history) = lastChoice choice history := by
  rw [lastChoice, List.reverse_cons, List.findSome?_append, List.findSome?_singleton]
  exact Option.or_none

end Action

/-- The settings after a history: of each kind the last choice, and where there was none what
was set before. -/
def Settings.revise (settings : Settings α) (history : List (Action α)) : Settings α where
  scheme := (Action.lastChoice Setting.scheme? history).getD settings.scheme
  penalty := (Action.lastChoice Setting.penalty? history).getD settings.penalty
  step := (Action.lastChoice Setting.step? history).or settings.step
  iterations := (Action.lastChoice Setting.iterations? history).getD settings.iterations
  search := (Action.lastChoice Setting.search? history).getD settings.search
  intercept := (Action.lastChoice Setting.intercept? history).getD settings.intercept

namespace Settings

variable (settings : Settings α)

theorem revise_nil : settings.revise [] = settings := rfl

theorem revise_set_cons (setting : Setting α) (history : List (Action α)) :
    settings.revise (.set setting :: history) = (settings.set setting).revise history := by
  simp only [revise, Action.lastChoice_set_cons, Option.getD_or, Option.or_assoc]
  cases setting <;> rfl

theorem revise_fit_cons (x : Table α) (y : List α) (history : List (Action α)) :
    settings.revise (.fit x y :: history) = settings.revise history := by
  simp only [revise, Action.lastChoice_fit_cons]

end Settings

/-! ## The last fit that succeeded -/

variable [Scalar α] [Eigensolver α]

namespace Estimator

/-- Each fit among some actions is refused when its turn comes. -/
def Refuses (model : Estimator α) (actions : List (Action α)) : Prop :=
  ∀ before x y rest, actions = before ++ .fit x y :: rest →
    ∃ fault, (before.foldl perform model).fit x y = .error fault

theorem refuses_nil (model : Estimator α) : model.Refuses [] := by
  intro before x y rest h
  exact absurd h.symm (List.append_ne_nil_of_right_ne_nil _ (List.cons_ne_nil _ _))

theorem Refuses.cons {model : Estimator α} {action : Action α} {actions : List (Action α)}
    (hfirst : ∀ x y, action = .fit x y → ∃ fault, model.fit x y = .error fault)
    (hrest : (model.perform action).Refuses actions) : model.Refuses (action :: actions) := by
  intro before x y rest h
  cases before with
  | nil =>
      injection h with haction _
      exact hfirst x y haction
  | cons first before =>
      injection h with hfirst hactions
      subst hfirst
      exact hrest before x y rest hactions

/-- A fit looks at the settings and replaces all the rest. -/
theorem fit_ofSettings (model : Estimator α) (x : Table α) (y : List α) :
    (ofSettings model.settings).fit x y = model.fit x y := rfl

theorem perform_fit_of_error {model : Estimator α} {x : Table α} {y : List α} {fault : Error α}
    (h : model.fit x y = .error fault) : model.perform (.fit x y) = model := by
  rw [perform, h]

theorem settings_of_fit {model : Estimator α} {x : Table α} {y : List α}
    {fitted : Logged α (Estimator α)} (h : model.fit x y = .ok fitted) :
    fitted.value.settings = model.settings := by
  obtain ⟨run, -, hvalue⟩ := value_of_fit h
  rw [hvalue, keep]
  split <;> rfl

theorem revise_perform (model : Estimator α) (action : Action α) (history : List (Action α)) :
    (model.perform action).settings.revise history =
      model.settings.revise (action :: history) := by
  cases action with
  | set setting => exact (model.settings.revise_set_cons setting history).symm
  | fit x y =>
      rw [Settings.revise_fit_cons]
      cases h : model.fit x y with
      | error fault => rw [perform_fit_of_error h]
      | ok fitted => rw [perform_fit_of_ok h, settings_of_fit h]

theorem settings_foldl_perform (model : Estimator α) (history : List (Action α)) :
    (history.foldl perform model).settings = model.settings.revise history := by
  induction history generalizing model with
  | nil => exact model.settings.revise_nil.symm
  | cons action history ih => rw [List.foldl_cons, ih, revise_perform]

/-- What is left by a history from any model on: all that the model held, or what the last fit
that succeeded made. -/
theorem foldl_perform_cases (model : Estimator α) (history : List (Action α)) :
    (model.Refuses history ∧
      history.foldl perform model =
        { model with settings := model.settings.revise history }) ∨
    ∃ before x y rest fitted, history = before ++ .fit x y :: rest ∧
      (before.foldl perform model).fit x y = .ok fitted ∧
      fitted.value.Refuses rest ∧
      history.foldl perform model =
        { fitted.value with settings := model.settings.revise history } := by
  induction history generalizing model with
  | nil => exact Or.inl ⟨refuses_nil model, rfl⟩
  | cons action history ih =>
      rw [List.foldl_cons, ← revise_perform]
      rcases ih (model.perform action) with
        ⟨hrefuses, hstate⟩ | ⟨before, x, y, rest, fitted, hhistory, hfit, hrest, hstate⟩
      · -- No fit succeeds later, so the first action decides.
        cases action with
        | set setting => exact Or.inl ⟨.cons (fun _ _ h => by injection h) hrefuses, hstate⟩
        | fit x y =>
            cases hfit : model.fit x y with
            | error fault =>
                refine Or.inl ⟨.cons ?_ hrefuses, ?_⟩
                · rintro _ _ ⟨⟩
                  exact ⟨fault, hfit⟩
                · rw [hstate, perform_fit_of_error hfit]
            | ok fitted =>
                rw [perform_fit_of_ok hfit] at hrefuses hstate ⊢
                exact Or.inr ⟨[], x, y, history, fitted, rfl, hfit, hrefuses, hstate⟩
      · exact Or.inr ⟨action :: before, x, y, rest, fitted, congrArg (action :: ·) hhistory,
          hfit, hrest, hstate⟩

theorem after_concat (history : List (Action α)) (action : Action α) :
    after (history ++ [action]) = (after history).perform action := by
  rw [after, List.foldl_append]
  rfl

/-- A model that was never fitted, with the settings that a history leaves, gets the same from
a fit as the model with that history. -/
theorem fit_revise_standard (history : List (Action α)) (x : Table α) (y : List α) :
    (ofSettings (Settings.standard.revise history)).fit x y = (after history).fit x y := by
  have hsettings : (after history).settings = Settings.standard.revise history :=
    settings_foldl_perform (ofSettings .standard) history
  rw [← fit_ofSettings (after history), hsettings]

/-- Any history leaves the last choice of each setting, and besides what a model that was never
fitted holds, if all fits were refused, or else what such a model with the settings of that
time gets from the data of the last fit that succeeded. A fit that is refused leaves all as it
was, and one that succeeds nothing of what was held before. -/
theorem state_after (history : List (Action α)) :
    (((ofSettings .standard).Refuses history ∧
        after history = ofSettings (Settings.standard.revise history)) ∨
      ∃ before x y rest fitted, history = before ++ .fit x y :: rest ∧
        (after before).fit x y = .ok fitted ∧
        (after (before ++ [.fit x y])).Refuses rest ∧
        (ofSettings (Settings.standard.revise before)).fit x y = .ok fitted ∧
        after history =
          { fitted.value with settings := Settings.standard.revise history }) ∧
    ∀ x y,
      (∀ fault, (after history).fit x y = .error fault →
        after (history ++ [.fit x y]) = after history) ∧
      ∀ fitted, (after history).fit x y = .ok fitted →
        after (history ++ [.fit x y]) = fitted.value ∧
        (ofSettings (Settings.standard.revise history)).fit x y = .ok fitted := by
  refine ⟨?_, fun x y => ⟨?_, ?_⟩⟩
  · rcases foldl_perform_cases (ofSettings .standard) history with
      h | ⟨before, x, y, rest, fitted, hhistory, hfit, hrest, hstate⟩
    · exact Or.inl h
    · replace hfit : (after before).fit x y = .ok fitted := hfit
      refine Or.inr ⟨before, x, y, rest, fitted, hhistory, hfit, ?_, ?_, hstate⟩
      · rw [after_concat, perform_fit_of_ok hfit]
        exact hrest
      · rw [fit_revise_standard]
        exact hfit
  · intro fault h
    rw [after_concat, perform_fit_of_error h]
  · intro fitted h
    rw [after_concat, perform_fit_of_ok h, fit_revise_standard]
    exact ⟨rfl, h⟩

end Estimator

end RidgeLogistic
