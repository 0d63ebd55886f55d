/-
  JobFleet.Job.Outcome: how the body of a job ends, and the result that callers see.

  A body returns an outcome, fails with a chain of causes, or panics with some payload.
  `RunResult.ofEnding` turns each of these into a well-formed result: a returned outcome keeps its
  fields and has no error, the other two are failures with an error text.
-/
import JobFleet.Json.Value

namespace JobFleet

/-! ## Endings of a body -/

/-- What a body reports when it returns. -/
structure Outcome where
  success : Bool
  message : String
  data : Option Json

/-- An error with the causes behind it, outermost first. -/
structure ErrorChain where
  headline : String
  causes : List String
deriving DecidableEq, Repr

/-- What a panic carries. -/
inductive Payload
  /-- A text. -/
  | text (reason : String)
  /-- Anything else. -/
  | other
deriving DecidableEq, Repr

/-- How a body ends. -/
inductive Ending
  /-- It returns an outcome. -/
  | returned (outcome : Outcome)
  /-- It fails. -/
  | failed (error : ErrorChain)
  /-- It panics. -/
  | panicked (payload : Payload)

/-! ## Error traces -/

/-- The lines of a text, at least one. -/
def splitLines : List Char → List (List Char)
  | [] => [[]]
  | c :: rest =>
    if c = '\n' then [] :: splitLines rest
    else match splitLines rest with
      | [] => [[c]]
      | first :: others => (c :: first) :: others

/-- A text with `lead` before its first line and `margin` before every other. -/
def indented (lead margin text : String) : String :=
  match splitLines text.toList with
  | [] => lead
  | first :: others =>
    lead ++ String.ofList first ++
      String.join (others.map (fun line => "\n" ++ margin ++ String.ofList line))

/-- A number right-aligned in five columns. -/
def rightAligned (n : Nat) : String :=
  let digits := toString n
  String.ofList (List.replicate (5 - digits.length) ' ') ++ digits

/-- The headline, and below it the causes: a single one indented, several of them numbered from
    zero. -/
def ErrorChain.trace (e : ErrorChain) : String :=
  match e.causes with
  | [] => e.headline
  | [cause] => e.headline ++ "\n\nCaused by:\n" ++ indented "    " "    " cause
  | causes =>
    e.headline ++ "\n\nCaused by:" ++ String.join (causes.zipIdx.map fun (cause, i) =>
      "\n" ++ indented (rightAligned i ++ ": ") "       " cause)

/-- The text of a panic. -/
def Payload.reason : Payload → String
  | .text reason => reason
  | .other => "unknown panic payload"

/-! ## Results -/

/-- The result of one guarded or unguarded run. -/
structure RunResult where
  success : Bool
  message : String
  data : Option Json
  error : Option String

namespace RunResult

/-- The result of a run whose body ended in the given way. -/
def ofEnding : Ending → RunResult
  | .returned outcome => ⟨outcome.success, outcome.message, outcome.data, none⟩
  | .failed error => ⟨false, "Job execution failed: " ++ error.headline, none, some error.trace⟩
  | .panicked payload =>
    ⟨false, "Job execution panicked: " ++ payload.reason, none, some ("panic: " ++ payload.reason)⟩

/-- The result of a run that broke outside its body. -/
def brokenWrapper : RunResult :=
  ⟨false, "Execution wrapper panicked", none, some "panic in execution wrapper"⟩

end RunResult

end JobFleet
