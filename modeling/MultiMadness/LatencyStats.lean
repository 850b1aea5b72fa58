import Mathlib.Data.Rat.Floor
import MultiMadness.Geometry
/-!
# The latency histogram

`LatencyStats` of `latency_stats.hpp`, in microseconds.
-/

namespace MultiMadness

/-- Resolution of the histogram. -/
def kBucketUs : UInt32 := 25
def kBuckets : Nat := 2048

structure LatencyStats where
  buckets : Fin kBuckets → UInt64 := fun _ => 0
  count : UInt64 := 0
  sum : UInt64 := 0
  min : UInt32 := 0xFFFFFFFF
  max : UInt32 := 0

namespace LatencyStats

/-- The bucket of a latency; everything above the range goes to the last one. -/
def bucket (us : UInt32) : Fin kBuckets :=
  if h : (us / kBucketUs).toNat < kBuckets then ⟨(us / kBucketUs).toNat, h⟩ else ⟨kBuckets - 1, by decide⟩

def record (s : LatencyStats) (us : UInt32) : LatencyStats where
  buckets := Function.update s.buckets (bucket us) (s.buckets (bucket us) + 1)
  count := s.count + 1
  sum := s.sum + us.toUInt64
  min := if us < s.min then us else s.min
  max := if s.max < us then us else s.max

def minUs (s : LatencyStats) : UInt32 := if s.count ≠ 0 then s.min else 0

def maxUs (s : LatencyStats) : UInt32 := s.max

def meanUs (s : LatencyStats) : UInt32 := if s.count ≠ 0 then (s.sum / s.count).toUInt32 else 0

/-- The loop of `percentile_us` over the buckets that are left. -/
def percentileLoop (s : LatencyStats) (target : ℚ) : List (Fin kBuckets) → UInt64 → UInt32
  | [], _ => UInt32.ofNat kBuckets * kBucketUs
  | b :: bs, seen =>
    let seen := seen + s.buckets b
    if (seen.toNat : ℚ) ≥ target then UInt32.ofNat ((b + 1) * kBucketUs.toNat) else s.percentileLoop target bs seen

/-- Upper edge of the bucket containing the requested percentile. -/
def percentileUs (s : LatencyStats) (pct : ℚ) : UInt32 :=
  if s.count = 0 then 0
  else s.percentileLoop (clamp pct 0 100 / 100 * (s.count.toNat : ℚ)) (List.finRange kBuckets) 0

def reset (_s : LatencyStats) : LatencyStats := {}

end LatencyStats

end MultiMadness
