import HyperTrace.Common.Messaging

/-!
# Bucketed rolling statistics

`stats.py`: Welford's recurrence, one sample at a time, and the z-score against
it. A bucket that is missing from a profile reads as the empty one.
-/

namespace HyperTrace

variable {K : Type} [Scalar K]

namespace BucketStats

def empty : BucketStats K := ⟨0, 0, 0⟩

def update (s : BucketStats K) (value : K) : BucketStats K :=
  let n := s.n + 1
  let delta := value - s.mean
  let mean := s.mean + delta / n
  let delta2 := value - mean
  ⟨n, mean, s.m2 + delta * delta2⟩

def stddev (s : BucketStats K) : K :=
  if s.n < 2 then 0 else Scalar.sqrt (s.m2 / ((s.n - 1 : ℕ) : K))

def zScore (s : BucketStats K) (value : K) : K :=
  if s.stddev = 0 then 0 else (value - s.mean) / s.stddev

/-- `from_dict`, of the entry a profile has under a key: what is absent reads as zero. -/
def fromDict : Option (ProfileEntry K) → BucketStats K
  | some (.stats s) => s
  | _ => empty

@[simp] theorem fromDict_stats (s : BucketStats K) : fromDict (some (.stats s)) = s := rfl

@[simp] theorem fromDict_none : fromDict (none : Option (ProfileEntry K)) = empty := rfl

@[simp] theorem update_n (s : BucketStats K) (value : K) : (s.update value).n = s.n + 1 := rfl

end BucketStats

/-- `profile.get(FLAG_STATE_KEY, {})`, absent counters reading as zero. -/
def FlagState.fromDict {K : Type} : Option (ProfileEntry K) → FlagState
  | some (.flags f) => f
  | _ => ⟨0, 0⟩

@[simp] theorem FlagState.fromDict_flags {K : Type} (f : FlagState) :
    fromDict (some (.flags f : ProfileEntry K)) = f := rfl

end HyperTrace
