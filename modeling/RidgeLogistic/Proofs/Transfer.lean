import RidgeLogistic.Proofs.Checked

/-!
# Runs on two problems

Two runs on different problems can be compared point by point where one map of coefficients
takes everything that a run looks at from the first problem to the second: the objective, the
gradient and the arithmetic of vectors (`Problem.Transfers`). A search then makes the same
trials with the same outcome on both sides, since it sees the objective and the squared
length of the gradient alone, and with the same step taken the images of two points are the
images of the next ones.

`Problem.Transfers.iterate` says so of the loop from any state on, whoever watches, records
of the log included; the induction is on the iterations left. Of an observer it needs a
reading of the events on the second problem as events on the first one, `Observer.comap`.
-/

namespace RidgeLogistic

variable {α : Type} {d e : Nat} {σ : Type}

/-! ## Images of points in what a run consists of -/

def Trajectory.map (f : Vec α d → Vec α e) (path : Trajectory α d) : Trajectory α e where
  start := f path.start
  later := path.later.map f

def Paths.map (f : Vec α d → Vec α e) (paths : Paths α d) : Paths α e where
  estimates := paths.estimates.map f
  origins := paths.origins.map f

def Iterate.map (f : Vec α d → Vec α e) (it : Iterate α d) : Iterate α e where
  estimate := f it.estimate
  origin := f it.origin
  grad := f it.grad

def Event.map (f : Vec α d → Vec α e) : Event α d → Event α e
  | .stalled solver iteration step trials => .stalled solver iteration step trials
  | .stepped solver iteration point step => .stepped solver iteration (f point) step

/-- The observer that is told of every point the image. -/
def Observer.comap (observer : Observer α e σ) (f : Vec α d → Vec α e) : Observer α d σ where
  notify event := observer.notify (event.map f)

section

variable (f : Vec α d → Vec α e)

theorem Trajectory.points_map (path : Trajectory α d) :
    (path.map f).points = path.points.map f := rfl

theorem Paths.map_ofIterates (start : Iterate α d) (later : List (Iterate α d)) :
    (ofIterates start later).map f = ofIterates (start.map f) (later.map (Iterate.map f)) := by
  simp [map, ofIterates, Trajectory.map, Iterate.map, Function.comp_def]

theorem Observer.comap_id (observer : Observer α d σ) : observer.comap id = observer := by
  obtain ⟨notify⟩ := observer
  refine congrArg Observer.mk (funext fun event => ?_)
  cases event <;> rfl

theorem Paths.map_id (paths : Paths α d) : paths.map id = paths := by
  simp [map, Trajectory.map]

theorem Scheme.events_map (scheme : Scheme) (iteration : Nat) (found : Found α)
    (reached : Vec α d) :
    scheme.events iteration found (f reached) =
      (scheme.events iteration found reached).map (Event.map f) := by
  simp only [events]
  split <;> rfl

theorem Observer.notifyAll_comap (observer : Observer α e σ) (events : List (Event α d))
    (state : σ) :
    (observer.comap f).notifyAll events state =
      observer.notifyAll (events.map (Event.map f)) state := by
  rw [notifyAll, notifyAll, List.foldlM_map]
  rfl

end

/-! ## Maps that a run cannot tell from none -/

variable [Scalar α]

/-- A map of coefficients takes one problem to another: it respects what a run computes with
vectors, and it takes objective to objective and gradient to gradient. -/
structure Problem.Transfers (p : Problem α d) (f : Vec α d → Vec α e) (p' : Problem α e) :
    Prop where
  add : ∀ u v, f (u + v) = f u + f v
  sub : ∀ u v, f (u - v) = f u - f v
  mul : ∀ v (a : α), f (v * a) = f v * a
  dot_self : ∀ v, (f v).dot (f v) = v.dot v
  objective : ∀ penalty β, p'.objective penalty (f β) = p.objective penalty β
  gradient : ∀ penalty β, p'.gradient penalty (f β) = f (p.gradient penalty β)

namespace Problem.Transfers

variable {p : Problem α d} {f : Vec α d → Vec α e} {p' : Problem α e}

theorem id_of_eq {p' : Problem α d}
    (hobjective : ∀ penalty β, p'.objective penalty β = p.objective penalty β)
    (hgradient : ∀ penalty β, p'.gradient penalty β = p.gradient penalty β) :
    p.Transfers id p' where
  add _ _ := rfl
  sub _ _ := rfl
  mul _ _ := rfl
  dot_self _ := rfl
  objective := hobjective
  gradient := hgradient

variable (h : p.Transfers f p')

include h

theorem moved (origin grad : Vec α d) (step : α) :
    f origin - f grad * step = f (origin - grad * step) := by
  rw [h.sub, h.mul]

/-- The trials of a search, their outcome and their records are the same. -/
theorem backtrack (search : Backtracking α) (penalty : α) (β grad : Vec α d) (step : α) :
    p'.backtrack search penalty (f β) (f grad) step = p.backtrack search penalty β grad step := by
  simp only [Problem.backtrack, h.dot_self, h.moved, h.objective]

theorem origin (scheme : Scheme) (k : Nat) (estimate reached : Vec α d) :
    scheme.origin k (f estimate) (f reached) = f (scheme.origin k estimate reached) := by
  cases scheme with
  | plain => rfl
  | accelerated => simp only [Scheme.origin, h.add, h.mul, h.sub]

theorem arrive (penalty : α) (estimate origin : Vec α d) :
    p'.arrive penalty (f estimate) (f origin) = (p.arrive penalty estimate origin).map f := by
  rw [Problem.arrive, h.gradient]
  rfl

/-- The loop on the second problem, started in the image of a state, goes through the images
of the states. -/
theorem iterate (scheme : Scheme) (params : Params α) (observer : Observer α e σ)
    (left k : Nat) (it : Iterate α d) (state : σ) :
    p'.iterate scheme params observer left k (it.map f) state =
      (fun (later, state) => (later.map (Iterate.map f), state)) <$>
        p.iterate scheme params (observer.comap f) left k it state := by
  induction left generalizing k it state with
  | zero => rfl
  | succ left ih =>
      obtain ⟨estimate, origin, grad⟩ := it
      simp only [Problem.iterate, Iterate.map, Logged.map_bind, h.backtrack, h.moved]
      refine bind_congr fun found => ?_
      rw [Scheme.events_map, ← Observer.notifyAll_comap]
      refine bind_congr fun state => ?_
      rw [h.origin, h.arrive, ih]
      rfl

/-- A whole run on the second problem from the images of two points. -/
theorem run (scheme : Scheme) (params : Params α) (observer : Observer α e σ)
    (estimate origin : Vec α d) (state : σ) :
    p'.run scheme params observer (f estimate) (f origin) state =
      (fun (paths, state) => (paths.map f, state)) <$>
        p.run scheme params (observer.comap f) estimate origin state := by
  rw [Problem.run, Problem.run, h.arrive, h.iterate]
  simp only [Logged.map_map, Function.comp_def, Paths.map_ofIterates]

end Problem.Transfers

/-! Problems of one width that only their samples tell apart have the same searches and
runs. -/

namespace Problem.Transfers

variable {p p' : Problem α d} (h : p.Transfers id p')

include h

theorem objective_eq (penalty : α) (β : Vec α d) :
    p'.objective penalty β = p.objective penalty β :=
  h.objective penalty β

theorem gradient_eq (penalty : α) (β : Vec α d) :
    p'.gradient penalty β = p.gradient penalty β :=
  h.gradient penalty β

theorem backtrack_eq (search : Backtracking α) (penalty : α) (β grad : Vec α d) (step : α) :
    p'.backtrack search penalty β grad step = p.backtrack search penalty β grad step :=
  h.backtrack search penalty β grad step

theorem run_eq (scheme : Scheme) (params : Params α) (observer : Observer α d σ)
    (estimate origin : Vec α d) (state : σ) :
    p'.run scheme params observer estimate origin state =
      p.run scheme params observer estimate origin state := by
  have hrun := h.run scheme params observer estimate origin state
  simp only [Observer.comap_id, Paths.map_id, id] at hrun
  exact hrun

end Problem.Transfers

/-! ## Runs of a solver -/

section

variable {x x' : Table α} {y y' : List α} {p : Problem α x.width} {p' : Problem α x'.width}
  {f : Vec α x.width → Vec α x'.width} (hp : Problem.ofData x y = .ok p)
  (hp' : Problem.ofData x' y' = .ok p') (h : p.Transfers f p') (solver : Solver α)

include hp hp' h

theorem lineSearch_transfer (β : Vec α x.width) :
    lineSearch x' y' (f β).toList solver.params.penalty solver.params.step
        solver.params.search =
      lineSearch x y β.toList solver.params.penalty solver.params.step solver.params.search := by
  rw [lineSearch_eq hp, lineSearch_eq hp', h.gradient, h.backtrack]

theorem objectives_transfer {penalty : α} (hpen : checkPenalty penalty = .ok ())
    (path : Trajectory α x.width) :
    (path.map f).objectives x' y' penalty = path.objectives x y penalty := by
  rw [objectives_eq hp hpen, objectives_eq hp' hpen, Trajectory.points_map, List.map_map]
  exact congrArg Except.ok (List.map_congr_left fun β _ => h.objective penalty β)

theorem descendWith_transfer (observer : Observer α x'.width σ) (state : σ)
    (β : Vec α x.width) :
    ∃ path seen log,
      solver.descendWith x y β.toList (observer.comap f) state = .ok ⟨(path, seen), log⟩ ∧
      solver.descendWith x' y' (f β).toList observer state =
        .ok ⟨(path.map f, seen), log⟩ := by
  rw [descendWith_eq_run hp, descendWith_eq_run hp', h.run]
  exact ⟨_, _, _, rfl, rfl⟩

theorem accelerateWith_transfer (observer : Observer α x'.width σ) (state : σ)
    (β θ : Vec α x.width) :
    ∃ paths seen log,
      solver.accelerateWith x y β.toList θ.toList (observer.comap f) state =
        .ok ⟨(paths, seen), log⟩ ∧
      solver.accelerateWith x' y' (f β).toList (f θ).toList observer state =
        .ok ⟨(paths.map f, seen), log⟩ := by
  rw [accelerateWith_eq_run hp, accelerateWith_eq_run hp', h.run]
  exact ⟨_, _, _, rfl, rfl⟩

end

/-! ## Data with the same objective and gradient -/

omit [Scalar α] in
/-- Which lists fit the rows of a table depends on its width alone. -/
theorem Table.point_mk (rows rows' : List (Vec α d)) (operand : Operand) (v : List α) :
    (Table.mk d rows').point operand v = (Table.mk d rows).point operand v := by
  cases h : Vec.ofList? d v with
  | none => simp only [point, h]
  | some w => simp only [point, h]

section

variable {rows rows' : List (Vec α d)} {y y' : List α} {p p' : Problem α d}
  (hp : Problem.ofData ⟨d, rows⟩ y = .ok p) (hp' : Problem.ofData ⟨d, rows'⟩ y' = .ok p')
  (h : p.Transfers id p')

include hp hp' h

theorem objective_congr (β : List α) (penalty : α) :
    objective ⟨d, rows'⟩ y' β penalty = objective ⟨d, rows⟩ y β penalty := by
  rw [objective, objective, hp, hp', Table.point_mk rows rows']
  simp only [bind, Except.bind, h.objective_eq]

theorem gradient_congr (β : List α) (penalty : α) :
    gradient ⟨d, rows'⟩ y' β penalty = gradient ⟨d, rows⟩ y β penalty := by
  rw [gradient, gradient, hp, hp', Table.point_mk rows rows']
  simp only [bind, Except.bind, h.gradient_eq]

theorem lineSearch_congr (β : List α) (penalty step : α) (search : Backtracking α) :
    lineSearch ⟨d, rows'⟩ y' β penalty step search =
      lineSearch ⟨d, rows⟩ y β penalty step search := by
  rw [lineSearch, lineSearch, hp, hp', Table.point_mk rows rows']
  simp only [bind, Except.bind, h.gradient_eq, h.backtrack_eq]

theorem descendWith_congr (solver : Solver α) (β : List α) (observer : Observer α d σ)
    (state : σ) :
    solver.descendWith ⟨d, rows'⟩ y' β observer state =
      solver.descendWith ⟨d, rows⟩ y β observer state := by
  rw [Solver.descendWith, Solver.descendWith, hp, hp', Table.point_mk rows rows']
  simp only [bind, Except.bind, h.run_eq]

theorem accelerateWith_congr (solver : Solver α) (β θ : List α) (observer : Observer α d σ)
    (state : σ) :
    solver.accelerateWith ⟨d, rows'⟩ y' β θ observer state =
      solver.accelerateWith ⟨d, rows⟩ y β θ observer state := by
  rw [Solver.accelerateWith, Solver.accelerateWith, hp, hp', Table.point_mk rows rows',
    Table.point_mk rows rows']
  simp only [bind, Except.bind, h.run_eq]

end

end RidgeLogistic
