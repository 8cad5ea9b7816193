import Responder.Written.Json.Token

/-! Reading JSON: a document is built from tokens, one after the other. What is open at a point in the
    text is a stack of lists and records; a token either fits the place that the reader has come to, or
    the text is not JSON. -/

namespace Responder.Json

/-- A list or record that is open while one of its values is read. What came before stands last one first. -/
inductive Frame where
  | list (items : List Document)
  | record (fields : List (String × Document)) (name : String)

/-- How far a document has been read. -/
inductive Place where
  /-- A value has to follow; the innermost list may end instead if it has only been opened. -/
  | value (opened : Bool) (frames : List Frame)
  /-- The name of a field has to follow; the record may end instead if it has only been opened. -/
  | fieldName (opened : Bool) (fields : List (String × Document)) (frames : List Frame)
  | colon (fields : List (String × Document)) (name : String) (frames : List Frame)
  | afterItem (items : List Document) (frames : List Frame)
  | afterField (fields : List (String × Document)) (frames : List Frame)
  | done (d : Document)

namespace Place

/-- The place behind a value. -/
def behind (d : Document) : List Frame → Place
  | [] => done d
  | .list items :: frames => afterItem (d :: items) frames
  | .record fields name :: frames => afterField ((name, d) :: fields) frames

/-- The place behind a token, if the token fits. -/
def step? : Place → Token → Option Place
  | value _ frames, .leaf d => some (behind d frames)
  | value _ frames, .text s => some (behind (.text s) frames)
  | value _ frames, .openList => some (value true (.list [] :: frames))
  | value _ frames, .openRecord => some (fieldName true [] frames)
  | value true (.list _ :: frames), .closeList => some (behind (.list []) frames)
  | fieldName _ fields frames, .text s => some (colon fields s frames)
  | fieldName true _ frames, .closeRecord => some (behind (.record []) frames)
  | colon fields s frames, .colon => some (value false (.record fields s :: frames))
  | afterItem items frames, .comma => some (value false (.list items :: frames))
  | afterItem items frames, .closeList => some (behind (.list items.reverse) frames)
  | afterField fields frames, .comma => some (fieldName false fields frames)
  | afterField fields frames, .closeRecord => some (behind (.ofFields fields.reverse) frames)
  | _, _ => none

/-- The document, once all of it has been read. -/
def result? : Place → Option Document
  | done d => some d
  | _ => none

end Place

def ofTokens? (tokens : List Token) : Option Document := (tokens.foldlM Place.step? (.value false [])).bind (·.result?)

def read? (s : String) : Option Document := (Token.scan? [] s.toList).bind ofTokens?

end Responder.Json
