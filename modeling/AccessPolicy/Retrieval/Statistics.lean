import AccessPolicy.Decimal.Shortest

/-!
# Statistics of a retrieval point

Retrievals, what they found and what they cost are counted, and so are the updates. Of the
latencies the latest ones are kept, in nanoseconds; percentiles and the average are taken of
those, in milliseconds.
-/

namespace AccessPolicy

/-- Counts and latencies since the last reset. -/
structure Statistics where
  retrievals : Nat := 0
  invalidResults : Nat := 0
  documentsMatched : Nat := 0
  evaluations : Nat := 0
  errors : Nat := 0
  publishes : Nat := 0
  unpublishes : Nat := 0
  latencies : Array Nat := #[]

namespace Statistics

/-- How many latencies are kept. -/
def maxLatencies : Nat := 10000

/-- How many of the oldest latencies are given up when there are too many. -/
def expired : Nat := 1000

/-- Adds a latency in nanoseconds. -/
def recordLatency (s : Statistics) (elapsed : Nat) : Statistics :=
  let latencies := s.latencies.push elapsed
  { s with
    latencies :=
      if maxLatencies < latencies.size then latencies.extract expired latencies.size
      else latencies }

/-- Counts a retrieval. -/
def recordRetrieval (s : Statistics) (valid : Bool) (matched evaluations errors elapsed : Nat) :
    Statistics :=
  { s with
    retrievals := s.retrievals + 1
    invalidResults := if valid then s.invalidResults else s.invalidResults + 1
    documentsMatched := s.documentsMatched + matched
    evaluations := s.evaluations + evaluations
    errors := s.errors + errors }.recordLatency elapsed

/-- Counts updates. -/
def recordUpdates (s : Statistics) (publishes unpublishes : Nat) : Statistics :=
  { s with
    publishes := s.publishes + publishes
    unpublishes := s.unpublishes + unpublishes }

/-- The seven counts. -/
def counts (s : Statistics) : List Nat :=
  [s.retrievals, s.invalidResults, s.documentsMatched, s.evaluations, s.errors, s.publishes,
    s.unpublishes]

/-! ## Derived figures -/

/-- How many nanoseconds a second has. -/
def nanosPerSecond : Nat := 1000000000

/-- The milliseconds of a number of nanoseconds, by way of seconds. -/
def milliseconds (elapsed : Nat) : Float :=
  (Float.ofNat (elapsed / nanosPerSecond) + Float.ofNat (elapsed % nanosPerSecond) / 1e9) * 1000

/-- The latency that some percent of the latencies stay below, in milliseconds. -/
def percentile (s : Statistics) (percent : Nat) : Float :=
  let sorted := s.latencies.toList.mergeSort fun a b => a ≤ b
  let place := min (sorted.length * percent / 100) (sorted.length - 1)
  sorted[place]?.elim 0 milliseconds

/-- The average latency in milliseconds. -/
def average (s : Statistics) : Float :=
  if s.latencies.isEmpty then 0
  else
    s.latencies.foldl (fun sum elapsed => sum + milliseconds elapsed) 0
      / Float.ofNat s.latencies.size

/-- The percentiles that are reported and the average. -/
def latencyFigures (s : Statistics) : List Float :=
  [s.percentile 50, s.percentile 90, s.percentile 99, s.average]

/-- A count for each retrieval. -/
def perRetrieval (s : Statistics) (count : Nat) : Float :=
  if s.retrievals = 0 then 0 else Float.ofNat count / Float.ofNat s.retrievals

/-- How many of the retrievals were invalid. -/
def invalidRate (s : Statistics) : Float := s.perRetrieval s.invalidResults

/-- How many evaluations there were for each retrieval. -/
def evaluationRate (s : Statistics) : Float := s.perRetrieval s.evaluations

/-! ## The report -/

/-- The lines of the report on a counter. -/
def counterLines (name help : String) (count : Nat) : List String := [
  "# HELP authz_prp_" ++ name ++ " " ++ help,
  "# TYPE authz_prp_" ++ name ++ " counter",
  "authz_prp_" ++ name ++ " " ++ toString count,
  ""]

/-- The line of the report on a percentile, in seconds. -/
def quantileLine (s : Statistics) (quantile : String) (percent : Nat) : String :=
  "authz_prp_latency_seconds\x7bquantile=\"" ++ quantile ++ "\"\x7d "
    ++ Binary.plainText (s.percentile percent / 1000)

/-- The lines of the report. -/
def reportLines (s : Statistics) : List String :=
  counterLines "retrievals_total" "Total number of policy retrievals" s.retrievals
    ++ counterLines "invalid_results_total" "Retrievals with an invalid result" s.invalidResults
    ++ counterLines "documents_matched_total" "Matched documents over all retrievals"
      s.documentsMatched
    ++ counterLines "literal_evaluations_total" "Literal evaluations" s.evaluations
    ++ counterLines "literal_errors_total" "Literal evaluations that failed" s.errors
    ++ counterLines "publishes_total" "Published documents" s.publishes
    ++ counterLines "unpublishes_total" "Unpublished documents" s.unpublishes
    ++ ["# HELP authz_prp_latency_seconds Retrieval latency percentiles",
      "# TYPE authz_prp_latency_seconds summary",
      s.quantileLine "0.5" 50, s.quantileLine "0.9" 90, s.quantileLine "0.99" 99]

/-- The report, each line with its end. -/
def report (s : Statistics) : String :=
  "".intercalate (s.reportLines.map fun line => line ++ "\n")

end Statistics

end AccessPolicy
