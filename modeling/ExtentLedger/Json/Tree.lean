import ExtentLedger.Json.Token

/-!
# JSON values

A text is read as a tree of values in which the places where it is not well formed are marked. Whoever decodes the tree
walks it in the order of the text, and so meets a mark exactly where a reader of the text would have had to stop: what
stands before it counts, what stands behind it does not.
-/

namespace ExtentLedger

namespace Json

inductive Tree
  | null
  | boolean (b : Bool)
  | number (n : Numeral)
  | string (pieces : List Piece)
  /-- Is there a closing bracket right behind the items? -/
  | array (items : List Tree) (closed : Bool)
  /-- What stands behind the members in place of the closing brace, if it is not there. -/
  | object (members : List (List Piece × Tree)) (stray : Option Tree)
  /-- No value stands here. -/
  | broken
deriving Repr

namespace Tree

def ofString (s : String) : Tree := .string (s.toList.map .char)

def ofInt (n : Int) : Tree := .number (.ofInt n)

def ofMembers (members : List (String × Tree)) : Tree :=
  .object (members.map fun (name, value) => (name.toList.map .char, value)) none

def ofItems (items : List Tree) : Tree := .array items true

/-! ## Writing -/

mutual

def tokens : Tree → List Token
  | .null => [.null]
  | .boolean b => [.boolean b]
  | .number n => [.number n]
  | .string ps => [.string ps]
  | .array items _ => .openBracket :: itemTokens items ++ [.closeBracket]
  | .object members _ => .openBrace :: memberTokens members ++ [.closeBrace]
  | .broken => [.broken]

def itemTokens : List Tree → List Token
  | [] => []
  | [v] => v.tokens
  | v :: vs => v.tokens ++ .comma :: itemTokens vs

def memberTokens : List (List Piece × Tree) → List Token
  | [] => []
  | [(name, v)] => .string name :: .colon :: v.tokens
  | (name, v) :: ms => .string name :: .colon :: v.tokens ++ .comma :: memberTokens ms

end

def text (t : Tree) : String := String.ofList (t.tokens.flatMap Token.chars)

/-! ## Reading -/

/- Each call is given one less unit of `fuel` than its caller. A value takes at most two calls for each of its tokens,
so the fuel that `ofTokens` starts with suffices. -/
mutual

/-- The value at the front of the tokens, and the tokens behind it. -/
def read : Nat → List Token → Tree × List Token
  | 0, ts => (.broken, ts)
  | fuel + 1, ts =>
    match ts with
    | .null :: ts => (.null, ts)
    | .boolean b :: ts => (.boolean b, ts)
    | .number n :: ts => (.number n, ts)
    | .string ps :: ts => (.string ps, ts)
    | .openBracket :: .closeBracket :: ts => (.array [] true, ts)
    | .openBracket :: ts =>
      let (items, closed, ts) := readItems fuel ts
      (.array items closed, ts)
    | .openBrace :: .closeBrace :: ts => (.object [] none, ts)
    | .openBrace :: ts =>
      let (members, stray, ts) := readMembers fuel ts
      (.object members stray, ts)
    | ts => (.broken, ts)

/-- Items up to the closing bracket, which may be missing. -/
def readItems : Nat → List Token → List Tree × Bool × List Token
  | 0, ts => ([], false, ts)
  | fuel + 1, ts =>
    let (v, ts) := read fuel ts
    match ts with
    | .comma :: ts =>
      let (vs, closed, ts) := readItems fuel ts
      (v :: vs, closed, ts)
    | .closeBracket :: ts => ([v], true, ts)
    | ts => ([v], false, ts)

def readMembers : Nat → List Token → List (List Piece × Tree) × Option Tree × List Token
  | 0, ts => ([], some .broken, ts)
  | fuel + 1, ts =>
    match ts with
    | .string name :: .colon :: ts =>
      let (v, ts) := read fuel ts
      match ts with
      | .comma :: ts =>
        let (ms, stray, ts) := readMembers fuel ts
        ((name, v) :: ms, stray, ts)
      | .closeBrace :: ts => ([(name, v)], none, ts)
      | ts => ([(name, v)], some .broken, ts)
    | .string name :: ts => ([(name, .broken)], some .broken, ts)
    | ts =>
      let (v, ts) := read fuel ts
      ([], some v, ts)

end

def ofTokens (ts : List Token) : Tree × List Token := read (2 * ts.length + 2) ts

/-! ## Well-formed values -/

mutual

/-- Is the value well formed? Numbers may be of any size, and strings may hold any escapes. -/
def isIntact : Tree → Bool
  | .array items closed => closed && itemsIntact items
  | .object members stray => stray.isNone && membersIntact members
  | .broken => false
  | _ => true

def itemsIntact : List Tree → Bool
  | [] => true
  | v :: vs => v.isIntact && itemsIntact vs

def membersIntact : List (List Piece × Tree) → Bool
  | [] => true
  | (_, v) :: ms => v.isIntact && membersIntact ms

end

mutual

/-- Is the value well formed, does every number and string in it have a value, and are its containers nested at most
`depth` deep? -/
def isReadable (depth : Nat) : Tree → Bool
  | .number n => n.value?.isSome
  | .string ps => (Piece.decode? ps).isSome
  | .array items closed =>
    match depth with
    | 0 => false
    | depth + 1 => closed && itemsReadable depth items
  | .object members stray =>
    match depth with
    | 0 => false
    | depth + 1 => stray.isNone && membersReadable depth members
  | .broken => false
  | _ => true

def itemsReadable (depth : Nat) : List Tree → Bool
  | [] => true
  | v :: vs => v.isReadable depth && itemsReadable depth vs

def membersReadable (depth : Nat) : List (List Piece × Tree) → Bool
  | [] => true
  | (name, v) :: ms => (Piece.decode? name).isSome && v.isReadable depth && membersReadable depth ms

end

end Tree

end Json

end ExtentLedger
