import Cellscript.Text.Cluster.Role

/-!
Cutting a text into clusters, the characters as a reader sees them. Whether a cluster goes on is
decided at each character from what stands before it.
-/

set_option autoImplicit false

namespace Cellscript

/-- What the next character has to know of the text before it. -/
structure ClusterState where
  last : ClusterRole
  /-- The text ends with an odd number of halves of flags. -/
  halfFlag : Bool
  /-- The text ends with a pictograph and extenders. -/
  picture : Bool
  /-- The text ends with a pictograph, extenders and a joiner. -/
  joinedPicture : Bool
  /-- The text ends with a consonant and what may stand in a stack. -/
  stack : Bool
  /-- The text ends with such a stack that has a linker in it. -/
  linkedStack : Bool

namespace ClusterState

def start : ClusterState where
  last := .control
  halfFlag := false
  picture := false
  joinedPicture := false
  stack := false
  linkedStack := false

/-- Whether a character with this role goes on with the cluster before it. -/
def joins (s : ClusterState) (role : ClusterRole) : Bool :=
  match s.last, role with
  | .carriageReturn, .lineFeed => true
  | .carriageReturn, _ | .lineFeed, _ | .control, _ => false
  | _, .carriageReturn | _, .lineFeed | _, .control => false
  | .initial, .initial | .initial, .vowel | .initial, .openSyllable
  | .initial, .closedSyllable => true
  | .vowel, .vowel | .vowel, .final | .openSyllable, .vowel | .openSyllable, .final => true
  | .final, .final | .closedSyllable, .final => true
  | _, .extender | _, .linker | _, .joiner | _, .nonJoiner | _, .spacing => true
  | .leader, _ => true
  | _, .consonant => s.linkedStack
  | _, .pictograph => s.joinedPicture
  | _, .regional => s.halfFlag
  | _, _ => false

def next (s : ClusterState) (role : ClusterRole) : ClusterState where
  last := role
  halfFlag := role = .regional && !s.halfFlag
  picture :=
    role = .pictograph ||
      s.picture && (role = .extender || role = .linker || role = .nonJoiner)
  joinedPicture := s.picture && role = .joiner
  stack :=
    role = .consonant || s.stack && (role = .extender || role = .linker || role = .joiner)
  linkedStack :=
    s.stack && role = .linker ||
      s.linkedStack && (role = .extender || role = .joiner)

end ClusterState

/-- The rest of a text from `s` on: what goes on with the cluster before it, and the clusters after
that one. -/
def clustersFrom (s : ClusterState) : List Char → List Char × List (List Char)
  | [] => ([], [])
  | c :: rest =>
    let role := ClusterRole.of c
    let (mine, others) := clustersFrom (s.next role) rest
    if s.joins role then (c :: mine, others) else ([], (c :: mine) :: others)

def clusters (cs : List Char) : List (List Char) :=
  (clustersFrom .start cs).2

end Cellscript
