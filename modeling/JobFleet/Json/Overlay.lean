/-
  JobFleet.Json.Overlay: laying one JSON value over another.

  Two objects merge member by member; in every other case the upper value replaces the lower one.
-/
import JobFleet.Json.Value

namespace JobFleet.Json

mutual

/-- The value `upper` laid over `lower`. -/
def overlay (lower : Json) : Json → Json
  | .obj upper =>
    match lower with
    | .obj members => .obj (overlayMembers members upper)
    | _ => .obj upper
  | upper => upper

/-- The members `upper` laid over the members `lower`, one after the other. -/
def overlayMembers (lower : List (String × Json)) : List (String × Json) → List (String × Json)
  | [] => lower
  | (name, value) :: rest =>
    match lookup name lower with
    | some below => overlayMembers (setMember name (overlay below value) lower) rest
    | none => overlayMembers (setMember name value lower) rest

end

end JobFleet.Json
