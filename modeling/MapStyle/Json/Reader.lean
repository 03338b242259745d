import MapStyle.Json.Token

/-!
# Reading documents

Tokens are assembled into a written document with a stack of the arrays and objects that are still
open.
-/

set_option autoImplicit false

namespace MapStyle

/-- An array or object that is still open: what it holds so far, last first, and for an object the
key that waits for its value. -/
inductive Pending where
  | arr (items : List Written)
  | obj (members : List (List Glyph × Written)) (key : List Glyph)

inductive Expects where
  | value
  | valueOrClose
  | keyOrClose
  | key
  | colon
  | separator
  | nothing
deriving DecidableEq

structure Assembly where
  stack : List Pending
  expects : Expects
  result : Option Written

namespace Assembly

def start : Assembly := ⟨[], .value, none⟩

def complete (w : Written) : List Pending → Assembly
  | [] => ⟨[], .nothing, some w⟩
  | .arr items :: stack => ⟨.arr (w :: items) :: stack, .separator, none⟩
  | .obj members key :: stack => ⟨.obj ((key, w) :: members) key :: stack, .separator, none⟩

def wantsValue (a : Assembly) : Bool := a.expects = .value || a.expects = .valueOrClose

def step (a : Assembly) : Token → Option Assembly
  | .scalar w => if a.wantsValue then some (complete w a.stack) else none
  | .text gs =>
    if a.wantsValue then some (complete (.text gs) a.stack)
    else
      match a.expects, a.stack with
      | .key, .obj members _ :: stack => some ⟨.obj members gs :: stack, .colon, none⟩
      | .keyOrClose, .obj members _ :: stack => some ⟨.obj members gs :: stack, .colon, none⟩
      | _, _ => none
  | .openArray => if a.wantsValue then some ⟨.arr [] :: a.stack, .valueOrClose, none⟩ else none
  | .openObject => if a.wantsValue then some ⟨.obj [] [] :: a.stack, .keyOrClose, none⟩ else none
  | .closeArray =>
    match a.expects, a.stack with
    | .valueOrClose, .arr items :: stack => some (complete (.arr items.reverse) stack)
    | .separator, .arr items :: stack => some (complete (.arr items.reverse) stack)
    | _, _ => none
  | .closeObject =>
    match a.expects, a.stack with
    | .keyOrClose, .obj members _ :: stack => some (complete (.obj members.reverse) stack)
    | .separator, .obj members _ :: stack => some (complete (.obj members.reverse) stack)
    | _, _ => none
  | .comma =>
    match a.expects, a.stack with
    | .separator, .arr items :: stack => some ⟨.arr items :: stack, .value, none⟩
    | .separator, .obj members key :: stack => some ⟨.obj members key :: stack, .key, none⟩
    | _, _ => none
  | .colon => if a.expects = .colon then some ⟨a.stack, .value, none⟩ else none

def run (a : Assembly) : List Token → Option Assembly
  | [] => some a
  | t :: rest =>
    match a.step t with
    | some a => a.run rest
    | none => none

end Assembly

def Written.ofText? (text : String) : Option Written :=
  match Token.ofChars? text.toList with
  | some tokens =>
    match Assembly.start.run tokens with
    | some a => a.result
    | none => none
  | none => none

def Json.read? {ν : Type} [Scalar ν] (text : String) : Option (Json ν) :=
  (Written.ofText? text).bind Written.toJson?

end MapStyle
