import WorkflowEngine.Http.Message

/-!
# Media types

What a content type header says about a body: a type, a subtype, which may carry a suffix after a plus
sign, and parameters. Case does not matter, except in the values of parameters.
-/
namespace WorkflowEngine

structure MediaType where
  subtype : String
  suffix : Option String
  /-- Names and values in order. -/
  parameters : List (String × String)
  deriving DecidableEq, Inhabited

namespace MediaType

/-- Characters of names. -/
def isToken (c : Char) : Bool := c.isAlphanum || Http.nameMarks.contains c

/-- Where reading the parameters has got to. -/
inductive Place where
  /-- Before a parameter or the end. -/
  | start
  | name
  | valueStart
  | value
  /-- After the opening quote. The first character belongs to the value, even a quote. -/
  | quoteStart
  | quote
  | quoteEnd
  | malformed
  deriving DecidableEq

def Place.step : Place → Char → Place
  | .start, c => if c == ' ' then .start else if isToken c then .name else .malformed
  | .name, c => if c == '=' then .valueStart else if isToken c then .name else .malformed
  | .valueStart, c => if c == '"' then .quoteStart else if isToken c then .value else .malformed
  | .value, c => if c == ';' then .start else if isToken c then .value else .malformed
  | .quoteStart, c => if isQuotable c then .quote else .malformed
  | .quote, c => if c == '"' then .quoteEnd else if isQuotable c then .quote else .malformed
  | .quoteEnd, c => if c == ';' then .start else if c == ' ' then .quoteEnd else .malformed
  | .malformed, _ => .malformed
where
  isQuotable (c : Char) : Bool := 31 < c.toNat && c.toNat ≠ 127

/-- May the parameters end here? -/
def Place.isEnd : Place → Bool
  | .start | .valueStart | .value | .quoteEnd => true
  | _ => false

/-- The parameters read so far, newest first, each with its characters reversed. -/
structure Reading where
  place : Place := .start
  found : List (List Char × List Char) := []

/-- A character begins a parameter, or is a part of the name or the value of the newest. -/
def Reading.step (reading : Reading) (c : Char) : Reading :=
  let place := reading.place.step c
  let found :=
    match reading.place, place, reading.found with
    | .start, .name, found => ([c], []) :: found
    | .name, .name, (name, value) :: found => (c :: name, value) :: found
    | _, .value, (name, value) :: found => (name, c :: value) :: found
    | _, .quote, (name, value) :: found => (name, c :: value) :: found
    | _, _, found => found
  ⟨place, found⟩

/-- The parameters after the first semicolon. -/
def readParameters (cs : List Char) : Option (List (String × String)) :=
  let reading := cs.foldl Reading.step {}
  if reading.place.isEnd then
    some (reading.found.reverse.map fun (name, value) =>
      (Http.lowerName (String.ofList name.reverse), String.ofList value.reverse))
  else none

/-- A subtype and its suffix, after the last plus sign that is not its first character. -/
def ofSubtype (cs : List Char) (parameters : List (String × String)) : MediaType :=
  let reversed := (cs.map Char.toLower).reverse
  let suffix := (reversed.takeWhile (· ≠ '+')).reverse
  let subtype := ((reversed.dropWhile (· ≠ '+')).drop 1).reverse
  if subtype.isEmpty then ⟨String.ofList reversed.reverse, none, parameters⟩
  else ⟨String.ofList subtype, some (String.ofList suffix), parameters⟩

def parse? (text : String) : Option MediaType :=
  let cs := text.toList
  match cs.takeWhile isToken, cs.dropWhile isToken with
  | _ :: _, '/' :: rest =>
    match rest.takeWhile isToken, rest.dropWhile isToken with
    | subtype, [] => some (ofSubtype subtype [])
    | _ :: _, ';' :: parameters =>
      (readParameters parameters).map (ofSubtype (rest.takeWhile isToken))
    | _, _ => none
  | _, _ => none

def parameter? (type : MediaType) (name : String) : Option String := type.parameters.lookup name

/-- JSON, or a format written in it. -/
def isJson (type : MediaType) : Bool := type.subtype == "json" || type.suffix == some "json"

end MediaType

end WorkflowEngine
