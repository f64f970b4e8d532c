/-!
# The two schemes

Both schemes take a searched gradient step from a point and differ in where the
next one starts: at the point just reached, or a little beyond it.
-/

namespace RidgeLogistic

/-- How a run chooses the point that its next step starts from. -/
inductive Scheme where
  | plain
  | accelerated
  deriving DecidableEq, Repr

namespace Scheme

/-- What a run calls itself when it reports. -/
def title : Scheme → String
  | plain => "gradient descent"
  | accelerated => "fast gradient"

/-- The name of the choice as a setting. -/
def name : Scheme → String
  | plain => "GradientDescent"
  | accelerated => "FastGradient"

end Scheme

end RidgeLogistic
