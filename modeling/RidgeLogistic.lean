import RidgeLogistic.Eigen.Rotation
import RidgeLogistic.Experiment
import RidgeLogistic.PathMetrics
import RidgeLogistic.Proofs.Checked
import RidgeLogistic.Proofs.Recurrence
import RidgeLogistic.Proofs.Convexity
import RidgeLogistic.Proofs.Reports
import RidgeLogistic.Proofs.Search
import RidgeLogistic.Proofs.SufficientDecrease
import RidgeLogistic.Proofs.AcceleratedRate
import RidgeLogistic.Proofs.PlainRate
import RidgeLogistic.Proofs.Spectral
import RidgeLogistic.Proofs.FirstStep
import RidgeLogistic.Proofs.Decisions
import RidgeLogistic.Proofs.History
import RidgeLogistic.Proofs.Scoring
import RidgeLogistic.Proofs.Observation
import RidgeLogistic.Proofs.Provenance
import RidgeLogistic.Proofs.Fitted
import RidgeLogistic.Proofs.IdleFeatures
import RidgeLogistic.Proofs.Moments
import RidgeLogistic.Proofs.Units
import RidgeLogistic.Proofs.Transfer
import RidgeLogistic.Proofs.Resampling
import RidgeLogistic.Proofs.Orthogonal
import RidgeLogistic.Proofs.Budget
import RidgeLogistic.Proofs.FirstEstimate
import RidgeLogistic.Proofs.Transcript
import RidgeLogistic.Proofs.Augmentation
import RidgeLogistic.Proofs.Valuation
import RidgeLogistic.Proofs.Shuffling
import RidgeLogistic.Proofs.Splitting
import RidgeLogistic.Proofs.Lineage
import RidgeLogistic.Proofs.HeldOut
import RidgeLogistic.Proofs.Surrogate
import RidgeLogistic.Proofs.Trials
import RidgeLogistic.Proofs.Optimality
import RidgeLogistic.Proofs.StandardForm
import RidgeLogistic.Proofs.Rayleigh
import RidgeLogistic.Proofs.Demands
import RidgeLogistic.Proofs.Stationary
import RidgeLogistic.Proofs.Evaluation
import RidgeLogistic.Proofs.Probabilities
import RidgeLogistic.Proofs.Overflow
import RidgeLogistic.Proofs.Batches
import RidgeLogistic.Proofs.PathMetrics
