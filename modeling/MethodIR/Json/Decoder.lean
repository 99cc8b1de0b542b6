import MethodIR.Json.Document

/-!
Decoders: how a document stands for a value of some type. A decoder meets the parts of a document in
the order of the text and stops at the first that is wrong, so a mismatch may hide a later fault and
the other way round. Some values are read whole before they are looked at; the two stages differ
only in what they say of wrong shapes.
-/
namespace MethodIR.Json

/-- Whether a document is looked at while it is read, or was read whole before. -/
inductive Stage where
  | streamed
  | whole
deriving DecidableEq, Repr

/-- Reads a document in which at most so many lists and objects may contain one another. -/
abbrev Decoder (α : Type) := Stage → Nat → Document → Except Error α

variable {α β σ ρ : Type}

/-- The deepest nesting of lists and objects that is read. -/
def levelLimit : Nat := 127

def ofFault (r : Except Fault α) : Except Error α := r.mapError .fault

def refuse (m : Mismatch) : Except Error α := .error (.mismatch m)

/-- Goes into a list or an object. -/
def within (levels : Nat) (inside : Nat → Except Error α) : Except Error α :=
  match levels with
  | 0 => .error (.fault .tooDeep)
  | levels + 1 => inside levels

/-- Number and noun of the elements of a list. -/
def elements (n : Nat) : String := toString n ++ if n = 1 then " element" else " elements"

namespace Document

/-- Why a document is not what is wanted. A scalar is read to its end before it is refused, a list
or an object is not entered. -/
def unexpected (wanted : String) : Document → Error
  | .missing fault | .broken fault _ | .brokenText fault _ => .fault fault
  | .null => .mismatch (.wrongType .null wanted)
  | .boolean b => .mismatch (.wrongType (.boolean b) wanted)
  | .number l =>
    match l.number with
    | .ok (.integer n) => .mismatch (.wrongType (.integer n) wanted)
    | .ok (.real x) => .mismatch (.wrongType (.real x) wanted)
    | .error fault => .fault fault
  | .text s => .mismatch (.wrongType (.text s) wanted)
  | .list _ _ => .mismatch (.wrongType .sequence wanted)
  | .object _ _ => .mismatch (.wrongType .map wanted)

/-- Reads a document whole. -/
def readWhole (levels : Nat) (d : Document) : Except Error Document :=
  ofFault ((d.value levels).map ofJson)

end Document

/-- What is left of a list when all that is wanted of it has been read must be its end. -/
def ListEnd.checkLast (stage : Stage) (count : Nat) (left : List Document) (ending : ListEnd) :
    Except Error Unit :=
  match stage, left with
  | .whole, [] => .ok ()
  | .whole, left => refuse (.wrongLength (count + left.length) (elements count ++ " in sequence"))
  | .streamed, [] =>
    match ending with
    | .closed => .ok ()
    | .comma => .error (.fault .trailingComma)
    | .stray => .error (.fault .trailingText)
    | .cut => .error (.fault .listCut)
  | .streamed, _ => .error (.fault .trailingText)

namespace Decoder

def map (f : α → β) (decode : Decoder α) : Decoder β :=
  fun stage levels d => (decode stage levels d).map f

def boolean : Decoder Bool
  | _, _, .boolean b => .ok b
  | _, _, d => .error (d.unexpected "a boolean")

def text : Decoder String
  | _, _, .text s => .ok s
  | _, _, d => .error (d.unexpected "a string")

/-- An integer of a range that messages call `wanted`. -/
def integer (least greatest : Int) (wanted : String) : Decoder Int
  | _, _, .number l =>
    match l.number with
    | .ok (.integer n) =>
      if least ≤ n ∧ n ≤ greatest then .ok n else refuse (.outOfRange n wanted)
    | _ => .error ((Document.number l).unexpected wanted)
  | _, _, d => .error (d.unexpected wanted)

def u32 : Decoder UInt32 := (integer 0 0xffffffff "u32").map fun n => UInt32.ofNat n.toNat

def i64 : Decoder Int64 :=
  (integer Int64.minValue.toInt Int64.maxValue.toInt "i64").map Int64.ofInt

def nullable (decode : Decoder α) : Decoder (Option α)
  | _, _, .null => .ok none
  | stage, levels, d => (decode stage levels d).map some

def list (decode : Decoder α) : Decoder (List α)
  | stage, levels, .list items ending => within levels fun inner => do
    let values ← items.mapM (decode stage inner)
    ofFault ending.check
    pure values
  | _, _, d => .error (d.unexpected "a sequence")

/-- A decoder that may use itself inside the lists and objects that it reads. -/
def unroll (step : Decoder α → Decoder α) : Nat → Decoder α
  | 0 => step fun _ _ _ => .error (.fault .tooDeep)
  | levels + 1 => step (unroll step levels)

/-- The decoder that refers to itself one level further in. -/
def nested (step : Decoder α → Decoder α) : Decoder α :=
  fun stage levels d => unroll step levels stage levels d

end Decoder

/-- One field of a record: what it is when an object has no such member, and what it is when a list
ends before it. -/
structure RecordField (α : Type) where
  name : String
  decode : Decoder α
  missing : Option α
  cut : Option α

namespace RecordField

def required (name : String) (decode : Decoder α) : RecordField α := ⟨name, decode, none, none⟩

def optional (name : String) (decode : Decoder α) : RecordField (Option α) :=
  ⟨name, decode.nullable, some none, none⟩

def withDefault (name : String) (decode : Decoder α) (a : α) : RecordField α :=
  ⟨name, decode, some a, some a⟩

end RecordField

/-- The fields of a record in their order: `σ` holds those that have been read, `ρ` all of them. -/
inductive Fields : Type → Type → Type 1 where
  | done : Fields Unit Unit
  | field {α σ ρ : Type} (f : RecordField α) (others : Fields σ ρ) : Fields (Option α × σ) (α × ρ)

namespace Fields

def count : {σ ρ : Type} → Fields σ ρ → Nat
  | _, _, .done => 0
  | _, _, .field _ others => others.count + 1

def empty : {σ ρ : Type} → Fields σ ρ → σ
  | _, _, .done => ()
  | _, _, .field _ others => (none, others.empty)

/-- Reads the member `key` into its field, or gives `none` if there is no such field. A second
member of that name is refused before its value is read. -/
def put (stage : Stage) (levels : Nat) (key : String) (d : Document) :
    {σ ρ : Type} → Fields σ ρ → σ → Option (Except Error σ)
  | _, _, .done, _ => none
  | _, _, .field f others, (slot, slots) =>
    if f.name = key then
      match slot with
      | some _ => some (refuse (.duplicateField key))
      | none => some ((f.decode stage levels d).map fun a => (some a, slots))
    else (others.put stage levels key d slots).map fun r => r.map fun slots => (slot, slots)

/-- Reads members in the order of the text and passes over those that are no fields. -/
def readMembers (fields : Fields σ ρ) (stage : Stage) (levels : Nat) :
    List (Key × Document) → σ → Except Error σ
  | [], slots => .ok slots
  | (key, d) :: members, slots => do
    let key ← ofFault key.read
    match fields.put stage levels key d slots with
    | none =>
      ofFault d.skip
      fields.readMembers stage levels members slots
    | some read => fields.readMembers stage levels members (← read)

/-- All fields, of which those that were not read have their default. -/
def finish : {σ ρ : Type} → Fields σ ρ → σ → Except Error ρ
  | _, _, .done, _ => .ok ()
  | _, _, .field f others, (slot, slots) =>
    match slot <|> f.missing with
    | none => refuse (.missingField f.name)
    | some a => (others.finish slots).map fun r => (a, r)

def ofObject (fields : Fields σ ρ) (stage : Stage) (levels : Nat)
    (members : List (Key × Document)) (ending : ObjectEnd) : Except Error ρ := do
  let slots ← fields.readMembers stage levels members fields.empty
  ofFault ending.check
  fields.finish slots

/-- Reads the fields off the front of a list; `position` of them came before. -/
def readItems (wanted : String) (stage : Stage) (levels : Nat) (ending : ListEnd) :
    {σ ρ : Type} → Fields σ ρ → Nat → List Document → Except Error (ρ × List Document)
  | _, _, .done, _, items => .ok ((), items)
  | _, _, .field f others, position, [] => do
    ofFault ending.check
    match f.cut with
    | none => refuse (.wrongLength position wanted)
    | some a => do
      let (r, left) ← others.readItems wanted stage levels ending (position + 1) []
      pure ((a, r), left)
  | _, _, .field f others, position, d :: items => do
    let a ← f.decode stage levels d
    let (r, left) ← others.readItems wanted stage levels ending (position + 1) items
    pure ((a, r), left)

def ofList (fields : Fields σ ρ) (wanted : String) (stage : Stage) (levels : Nat)
    (items : List Document) (ending : ListEnd) : Except Error ρ := do
  let (r, left) ←
    fields.readItems (wanted ++ " with " ++ elements fields.count) stage levels ending 0 items
  ending.checkLast stage fields.count left
  pure r

end Fields

namespace Decoder

/-- A record, written as an object or as the list of its fields. -/
def record (wanted : String) (fields : Fields σ ρ) : Decoder ρ
  | stage, levels, .list items ending =>
    within levels fun inner => fields.ofList wanted stage inner items ending
  | stage, levels, .object members ending =>
    within levels fun inner => fields.ofObject stage inner members ending
  | _, _, d => .error (d.unexpected wanted)

/-- A record that is written as an object only. -/
def object (wanted : String) (fields : Fields σ ρ) : Decoder ρ
  | stage, levels, .object members ending =>
    within levels fun inner => fields.ofObject stage inner members ending
  | _, _, d => .error (d.unexpected wanted)

/-- The first of several decoders that accepts a document read whole. -/
def firstOf (name : String) (decoders : List (Decoder α)) : Decoder α := fun _ levels d => do
  let d ← d.readWhole levels
  match decoders.findSome? fun decode => (decode .whole levels d).toOption with
  | some a => pure a
  | none => refuse (.noVariant name)

/-- The alternative of that name. -/
def choose (alternatives : List (String × α)) (name : String) : Except Error α :=
  match alternatives.lookup name with
  | some a => .ok a
  | none => refuse (.unknownVariant name (alternatives.map (·.1)))

/-- A name among alternatives. In a document read whole their numbers do as well. -/
def tagName (alternatives : List (String × α)) : Decoder α
  | _, _, .text s => choose alternatives s
  | .whole, _, .number l =>
    match l.number with
    | .ok (.integer n) =>
      if n < 0 then .error ((Document.number l).unexpected "variant identifier")
      else match alternatives[n.toNat]? with
        | some (_, a) => .ok a
        | none => refuse (.noSuchIndex n alternatives.length)
    | _ => .error ((Document.number l).unexpected "variant identifier")
  | _, _, d => .error (d.unexpected "variant identifier")

/-- The end of an object that holds one member only. -/
def checkSingle (others : List (Key × Document)) (ending : ObjectEnd) : Except Error Unit :=
  match others, ending with
  | [], .closed => .ok ()
  | [], .cut => .error (.fault .objectCut)
  | _, _ => .error (.fault .valueExpected)

/-- A name among alternatives, written as a string or as an object in which it is the key of a
null. -/
def name (alternatives : List (String × α)) : Decoder α
  | _, _, .text s => choose alternatives s
  | .streamed, levels, .object members ending => within levels fun _ =>
    match members with
    | [] => .error (.fault (if ending = .cut then .objectCut else .valueExpected))
    | (key, d) :: others => do
      let a ← choose alternatives (← ofFault key.read)
      match d with
      | .null => checkSingle others ending
      | d => .error (d.unexpected "unit")
      pure a
  | .streamed, _, .missing fault | .streamed, _, .brokenText fault _ => .error (.fault fault)
  | .streamed, _, _ => .error (.fault .valueExpected)
  | .whole, _, .object [(key, d)] _ => do
    let a ← choose alternatives (← ofFault key.read)
    match d with
    | .null | .object [] _ => pure a
    | d => .error (d.unexpected "unit")
  | .whole, _, .object _ _ => refuse .notOneEntry
  | .whole, _, d => .error (d.unexpected "string or map")

end Decoder

/-- One form of a value whose tag stands among its fields, read from what is left without the
tag. -/
structure Variant (α : Type) where
  ofObject : (levels : Nat) → List (Key × Document) → Except Error α
  ofList : (levels : Nat) → List Document → Except Error α

namespace Variant

def record (wanted : String) (fields : Fields σ ρ) (make : ρ → α) : Variant α where
  ofObject levels members := (fields.ofObject .whole levels members .closed).map make
  ofList levels items := (fields.ofList wanted .whole levels items .closed).map make

/-- A form without fields. -/
def bare (value : α) : Variant α where
  ofObject _ _ := .ok value
  ofList _ items := (ListEnd.closed.checkLast .whole 0 items).map fun _ => value

/-- Reads the members of an object: the tag at once, the others whole. -/
def splitTag (tag : String) (variants : List (String × Variant α)) (stage : Stage) (levels : Nat) :
    List (Key × Document) → Option (Variant α) →
      Except Error (Option (Variant α) × List (Key × Document))
  | [], variant => .ok (variant, [])
  | (key, d) :: members, variant => do
    let key ← ofFault key.read
    if key = tag then
      match variant with
      | some _ => refuse (.duplicateField tag)
      | none => do
        let variant ← Decoder.tagName variants stage levels d
        splitTag tag variants stage levels members (some variant)
    else
      let d ← d.readWhole levels
      let (variant, others) ← splitTag tag variants stage levels members variant
      pure (variant, (.name key, d) :: others)

end Variant

/-- A value of several forms, told apart by the member `tag`, or by the first item of a list. All
the rest is read whole before the fields of the form are looked at. -/
def Decoder.tagged (type tag : String) (variants : List (String × Variant α)) : Decoder α
  | stage, levels, .list items ending => within levels fun inner =>
    match items with
    | [] => do
      ofFault ending.check
      refuse (.missingField tag)
    | first :: items => do
      let variant ← tagName variants stage inner first
      let items ← items.mapM (·.readWhole inner)
      ofFault ending.check
      variant.ofList inner items
  | stage, levels, .object members ending => within levels fun inner => do
    let (variant, others) ← Variant.splitTag tag variants stage inner members none
    ofFault ending.check
    match variant with
    | none => refuse (.missingField tag)
    | some variant => variant.ofObject inner others
  | _, _, d => .error (d.unexpected ("internally tagged enum " ++ type))

/-- One form of a value whose tag stands beside its content: how the content is read, and the value
when there is none. -/
structure Alternative (α : Type) where
  decode : Decoder α
  withoutContent : Option α

namespace Alternative

def content (decode : Decoder β) (make : β → α) : Alternative α := ⟨decode.map make, none⟩

/-- A form without content, or with a null for it. -/
def bare (wanted : String) (value : α) : Alternative α where
  decode
    | _, _, .null => .ok value
    | _, levels, d =>
      match d with
      | .list _ _ | .object _ _ => within levels fun _ => .error (d.unexpected wanted)
      | d => .error (d.unexpected wanted)
  withoutContent := some value

end Alternative

/-- The two members of an object that count. -/
inductive Part where
  | tag
  | content
deriving DecidableEq, Repr

/-- The next member that is the tag or the content, and those after it. -/
def nextPart (tag content : String) (ending : ObjectEnd) :
    List (Key × Document) → Except Error (Option (Part × Document × List (Key × Document)))
  | [] => do
    ofFault ending.check
    pure none
  | (key, d) :: members => do
    let key ← ofFault key.read
    if key = tag then pure (some (.tag, d, members))
    else if key = content then pure (some (.content, d, members))
    else
      ofFault d.skip
      nextPart tag content ending members

/-- Neither tag nor content may come again. -/
def noMoreParts (tag content : String) (ending : ObjectEnd) (members : List (Key × Document)) :
    Except Error Unit := do
  match ← nextPart tag content ending members with
  | none => pure ()
  | some (.tag, _) => refuse (.duplicateField tag)
  | some (.content, _) => refuse (.duplicateField content)

/-- A value of several forms, an object of two members `tag` and `content` or the list of the two.
Content that comes before its tag is read whole first. -/
def Decoder.adjacent (type tag content : String) (alternatives : List (String × Alternative α)) :
    Decoder α
  | stage, levels, .list items ending => within levels fun inner =>
    match items with
    | [] => do
      ofFault ending.check
      refuse (.wrongLength 0 ("adjacently tagged enum " ++ type))
    | [first] => do
      let _ ← tagName alternatives stage inner first
      ofFault ending.check
      refuse (.wrongLength 1 ("adjacently tagged enum " ++ type))
    | first :: second :: left => do
      let form ← tagName alternatives stage inner first
      let a ← form.decode stage inner second
      ending.checkLast stage 2 left
      pure a
  | stage, levels, .object members ending => within levels fun inner => do
    match ← nextPart tag content ending members with
    | none => refuse (.missingField tag)
    | some (.tag, d, members) =>
      let form ← name alternatives stage inner d
      match ← nextPart tag content ending members with
      | none =>
        match form.withoutContent with
        | none => refuse (.missingField content)
        | some a => pure a
      | some (.tag, _) => refuse (.duplicateField tag)
      | some (.content, d, members) =>
        let a ← form.decode stage inner d
        noMoreParts tag content ending members
        pure a
    | some (.content, c, members) =>
      let c ← c.readWhole inner
      match ← nextPart tag content ending members with
      | none => refuse (.missingField tag)
      | some (.content, _) => refuse (.duplicateField content)
      | some (.tag, d, members) =>
        let form ← name alternatives stage inner d
        let a ← form.decode .whole inner c
        noMoreParts tag content ending members
        pure a
  | _, _, d => .error (d.unexpected ("adjacently tagged enum " ++ type))

/-- Reads a text that holds one document and nothing else. -/
def decode (decoder : Decoder α) (s : String) : Except Error α :=
  match Document.ofChars s.toList with
  | (d, rest) => do
    let a ← decoder .streamed levelLimit d
    if (skipBlanks rest).isEmpty then pure a else .error (.fault .trailingText)

/-- Reads a value that is already there. -/
def Decoder.ofJson (decoder : Decoder α) (j : Json) : Except Error α :=
  decoder .streamed levelLimit (.ofJson j)

/-- Reads any value, with nesting up to `levels`. -/
def parse (levels : Nat) (s : String) : Except Error Json :=
  match Document.ofChars s.toList with
  | (d, rest) => do
    let j ← ofFault (d.value levels)
    if (skipBlanks rest).isEmpty then pure j else .error (.fault .trailingText)

end MethodIR.Json
