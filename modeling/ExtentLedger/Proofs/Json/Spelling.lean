import ExtentLedger.Json.Tree
import Mathlib.Data.List.Chain
import Mathlib.Tactic.Common

/-!
# Spellings

Which texts stand for which tokens, apart from how they are read: a character may be escaped or not, a power of ten may
be marked and signed in more than one way, and spaces may stand around every token. The tokens of a text are read back
from any of its spellings, as long as every number is followed by what ends an item or a member.
-/

namespace ExtentLedger

namespace Json

/-! ## What may be written -/

def escapes : List (Char × Char) :=
  [('"', '"'), ('\\', '\\'), ('/', '/'), ('b', '\x08'), ('f', '\x0c'), ('n', '\n'), ('r', '\r'), ('t', '\t')]

inductive Piece.IsSpelled : Piece → List Char → Prop
  | plain {c : Char} (hq : c ≠ '"') (hb : c ≠ '\\') (hc : 0x20 ≤ c.toNat) : IsSpelled (.char c) [c]
  | escaped {l c : Char} (h : (l, c) ∈ escapes) : IsSpelled (.char c) ['\\', l]
  | unit {a b c d : Char} {i j k l : Nat} (ha : Text.hexValue? a = some i) (hb : Text.hexValue? b = some j)
      (hc : Text.hexValue? c = some k) (hd : Text.hexValue? d = some l) :
      IsSpelled (.unit (16 * (16 * (16 * i + j) + k) + l)) ['\\', 'u', a, b, c, d]

inductive Piece.AreSpelled : List Piece → List Char → Prop
  | nil : AreSpelled [] []
  | cons {p : Piece} {ps : List Piece} {cs ds : List Char} (h : p.IsSpelled cs) (h' : AreSpelled ps ds) :
      AreSpelled (p :: ps) (cs ++ ds)

def IsDigits (ds : List Char) : Prop := ds ≠ [] ∧ ∀ d ∈ ds, d.isDigit = true

instance (ds : List Char) : Decidable (IsDigits ds) :=
  decidable_of_iff (ds ≠ [] ∧ ds.all Char.isDigit = true) (by rw [IsDigits, List.all_eq_true])

namespace Numeral

inductive IsWhole : List Char → Prop
  | zero : IsWhole ['0']
  | digits {d : Char} {ds : List Char} (hd : d.isDigit = true) (h0 : d ≠ '0') (hds : ∀ c ∈ ds, c.isDigit = true) :
      IsWhole (d :: ds)

inductive IsPart : List Char → List Char → Prop
  | none : IsPart [] []
  | digits {ds : List Char} (h : IsDigits ds) : IsPart ds ('.' :: ds)

inductive IsPower : Option (Bool × List Char) → List Char → Prop
  | none : IsPower none []
  | plain {mark : Char} {ds : List Char} (hm : mark = 'e' ∨ mark = 'E') (h : IsDigits ds) :
      IsPower (some (false, ds)) (mark :: ds)
  | plus {mark : Char} {ds : List Char} (hm : mark = 'e' ∨ mark = 'E') (h : IsDigits ds) :
      IsPower (some (false, ds)) (mark :: '+' :: ds)
  | minus {mark : Char} {ds : List Char} (hm : mark = 'e' ∨ mark = 'E') (h : IsDigits ds) :
      IsPower (some (true, ds)) (mark :: '-' :: ds)

inductive IsSpelled : Numeral → List Char → Prop
  | mk (negative : Bool) {whole fraction part power : List Char} {exponent : Option (Bool × List Char)}
      (hw : IsWhole whole) (hf : IsPart fraction part) (hp : IsPower exponent power) :
      IsSpelled ⟨negative, whole, fraction, exponent⟩ ((if negative then ['-'] else []) ++ (whole ++ (part ++ power)))

end Numeral

inductive Token.IsSpelled : Token → List Char → Prop
  | openBrace : IsSpelled .openBrace ['\x7b']
  | closeBrace : IsSpelled .closeBrace ['\x7d']
  | openBracket : IsSpelled .openBracket ['[']
  | closeBracket : IsSpelled .closeBracket [']']
  | colon : IsSpelled .colon [':']
  | comma : IsSpelled .comma [',']
  | null : IsSpelled .null "null".toList
  | boolean (b : Bool) : IsSpelled (.boolean b) (toString b).toList
  | number {n : Numeral} {cs : List Char} (h : n.IsSpelled cs) : IsSpelled (.number n) cs
  | string {ps : List Piece} {cs : List Char} (h : Piece.AreSpelled ps cs) : IsSpelled (.string ps) ('"' :: cs ++ ['"'])

/-- The tokens, with spaces before, between and behind them or without. -/
inductive AreSpelled : List Token → List Char → Prop
  | nil {spaces : List Char} (hs : ∀ c ∈ spaces, Reading.isSpace c = true) : AreSpelled [] spaces
  | cons {t : Token} {ts : List Token} {spaces cs ds : List Char} (hs : ∀ c ∈ spaces, Reading.isSpace c = true)
      (h : t.IsSpelled cs) (h' : AreSpelled ts ds) : AreSpelled (t :: ts) (spaces ++ (cs ++ ds))

def Tree.IsSpelled (t : Tree) (s : String) : Prop := t.isIntact = true ∧ AreSpelled t.tokens s.toList

/-! ## Reading on -/

namespace Reading

/-- Characters that complete no token. -/
def Passes (r : Reading) (cs : List Char) (r' : Reading) : Prop :=
  ∀ rest, tokens r (cs ++ rest) = tokens r' rest

/-- Characters that complete one token, whatever may follow. -/
def Completes (r : Reading) (cs : List Char) (t : Token) : Prop :=
  ∀ rest, tokens r (cs ++ rest) = t :: tokens .between rest

namespace Passes

variable {r r' r'' : Reading} {c : Char} {cs ds : List Char} {t : Token}

theorem nil (r : Reading) : r.Passes [] r := fun _ => rfl

theorem cons (h : r.step c = ([], r')) (h' : r'.Passes cs r'') : r.Passes (c :: cs) r'' := by
  intro rest
  rw [List.cons_append, tokens, h]
  exact h' rest

theorem append (h : r.Passes cs r') (h' : r'.Passes ds r'') : r.Passes (cs ++ ds) r'' := by
  intro rest
  rw [List.append_assoc, h, h']

theorem completes (h : r.Passes cs r') (h' : r'.Completes ds t) : r.Completes (cs ++ ds) t := by
  intro rest
  rw [List.append_assoc, h, h']

end Passes

/-! ## Strings -/

theorem escapes_spec : ∀ e ∈ escapes, e.1 ≠ 'u' ∧ escaped? e.1 = some e.2 := by decide

theorem passes_piece {p : Piece} {cs : List Char} (h : p.IsSpelled cs) (ps : List Piece) :
    (Reading.string ps).Passes cs (.string (p :: ps)) := by
  cases h with
  | plain hq hb hc => exact .cons (by simp [step, hq, hb, hc]) (.nil _)
  | escaped h =>
    obtain ⟨hu, he⟩ := escapes_spec _ h
    exact .cons rfl (.cons (by simp [step, hu, he]) (.nil _))
  | unit ha hb hc hd =>
    intro rest
    simp [tokens, step, ha, hb, hc, hd]

theorem passes_pieces {ps : List Piece} {cs : List Char} (h : Piece.AreSpelled ps cs) (before : List Piece) :
    (Reading.string before).Passes cs (.string (ps.reverse ++ before)) := by
  induction h generalizing before with
  | nil => exact .nil _
  | @cons p ps cs ds h _ ih =>
    rw [List.reverse_cons, List.append_assoc]
    exact (passes_piece h before).append (ih (p :: before))

theorem completes_string {ps : List Piece} {cs : List Char} (h : Piece.AreSpelled ps cs) :
    Reading.between.Completes ('"' :: cs ++ ['"']) (.string ps) := by
  have hstart : Reading.between.Passes ['"'] (.string []) := .cons rfl (.nil _)
  have hend : (Reading.string (ps.reverse ++ [])).Completes ['"'] (.string ps) := by
    intro rest
    rw [List.append_nil, List.cons_append, tokens, step, if_pos rfl, List.reverse_reverse]
    rfl
  rw [List.cons_append]
  exact (hstart.append (passes_pieces h [])).completes hend

/-! ## Numbers -/

/-- A run of digits in one stage; `f` is the numeral with the digits that have been read. -/
theorem passes_digits {stage : NumeralStage} {f : List Char → Numeral}
    (hf : ∀ ds d, d.isDigit = true → extend? stage (f ds) d = some (stage, f (ds ++ [d]))) {ds : List Char}
    (hds : ∀ d ∈ ds, d.isDigit = true) (before : List Char) :
    (Reading.numeral stage (f before)).Passes ds (.numeral stage (f (before ++ ds))) := by
  induction ds generalizing before with
  | nil =>
    rw [List.append_nil]
    exact .nil _
  | cons d ds ih =>
    rw [List.forall_mem_cons] at hds
    rw [List.append_cons]
    exact .cons (by rw [step, hf before d hds.1]) (ih hds.2 _)

theorem passes_isDigits {stage stage' : NumeralStage} {f : List Char → Numeral}
    (hstart : ∀ d, d.isDigit = true → extend? stage (f []) d = some (stage', f [d]))
    (hf : ∀ ds d, d.isDigit = true → extend? stage' (f ds) d = some (stage', f (ds ++ [d]))) {ds : List Char}
    (h : IsDigits ds) : (Reading.numeral stage (f [])).Passes ds (.numeral stage' (f ds)) := by
  obtain ⟨hne, hds⟩ := h
  obtain ⟨d, ds, rfl⟩ := List.exists_cons_of_ne_nil hne
  rw [List.forall_mem_cons] at hds
  exact .cons (by rw [step, hstart d hds.1]) (passes_digits hf hds.2 [d])

variable (negative : Bool) (whole fraction : List Char) {cs : List Char} {exponent : Option (Bool × List Char)}
  {stage : NumeralStage}

theorem passes_whole {whole : List Char} (h : Numeral.IsWhole whole) : ∃ stage, (stage = .zero ∨ stage = .whole) ∧
    (Reading.numeral .sign ⟨negative, [], [], none⟩).Passes whole (.numeral stage ⟨negative, whole, [], none⟩) := by
  cases h with
  | zero => exact ⟨.zero, .inl rfl, .cons rfl (.nil _)⟩
  | @digits d ds hd h0 hds =>
    have hstep : (Reading.numeral .sign ⟨negative, [], [], none⟩).step d =
        ([], .numeral .whole ⟨negative, [d], [], none⟩) := by
      simp [step, extend?, hd, h0]
    refine ⟨.whole, .inr rfl, .cons hstep ?_⟩
    exact passes_digits (f := fun ds => ⟨negative, ds, [], none⟩) (fun ds d hd => by simp [extend?, hd]) hds [d]

theorem passes_part {fraction : List Char} (hs : stage = .zero ∨ stage = .whole) (h : Numeral.IsPart fraction cs) :
    ∃ stage', (stage' = .zero ∨ stage' = .whole ∨ stage' = .fraction) ∧
      (Reading.numeral stage ⟨negative, whole, [], none⟩).Passes cs
        (.numeral stage' ⟨negative, whole, fraction, none⟩) := by
  cases h with
  | none => exact ⟨stage, hs.imp_right .inl, .nil _⟩
  | digits hd =>
    have hpoint : (Reading.numeral stage ⟨negative, whole, [], none⟩).step '.' =
        ([], .numeral .point ⟨negative, whole, [], none⟩) := by
      rcases hs with rfl | rfl <;> rfl
    refine ⟨.fraction, .inr (.inr rfl), .cons hpoint ?_⟩
    exact passes_isDigits (f := fun ds => ⟨negative, whole, ds, none⟩) (fun d hd => by simp [extend?, hd])
      (fun ds d hd => by simp [extend?, hd]) hd

theorem passes_powerDigits (b : Bool) {start : NumeralStage} (hs : start = .mark ∨ start = .markSign) {ds : List Char}
    (h : IsDigits ds) : (Reading.numeral start ⟨negative, whole, fraction, some (b, [])⟩).Passes ds
      (.numeral .power ⟨negative, whole, fraction, some (b, ds)⟩) := by
  refine passes_isDigits (f := fun ds => ⟨negative, whole, fraction, some (b, ds)⟩) (fun d hd => ?_)
    (fun ds d hd => by simp [extend?, hd]) h
  have hsign : d ≠ '+' ∧ d ≠ '-' := by
    constructor <;> (rintro rfl; exact absurd hd (by decide))
  rcases hs with rfl | rfl <;> simp [extend?, hd, hsign]

theorem passes_power (hs : stage = .zero ∨ stage = .whole ∨ stage = .fraction) (h : Numeral.IsPower exponent cs) :
    ∃ stage', stage'.isComplete = true ∧
      (Reading.numeral stage ⟨negative, whole, fraction, none⟩).Passes cs
        (.numeral stage' ⟨negative, whole, fraction, exponent⟩) := by
  have hmark : ∀ mark, mark = 'e' ∨ mark = 'E' → (Reading.numeral stage ⟨negative, whole, fraction, none⟩).step mark =
      ([], .numeral .mark ⟨negative, whole, fraction, some (false, [])⟩) := by
    rintro mark (rfl | rfl) <;> rcases hs with rfl | rfl | rfl <;> rfl
  cases h with
  | none =>
    refine ⟨stage, ?_, .nil _⟩
    rcases hs with rfl | rfl | rfl <;> rfl
  | plain hm h =>
    have hdigits := passes_powerDigits negative whole fraction false (.inl rfl) h
    exact ⟨.power, rfl, .cons (hmark _ hm) hdigits⟩
  | plus hm h =>
    have hdigits := passes_powerDigits negative whole fraction false (.inr rfl) h
    exact ⟨.power, rfl, .cons (hmark _ hm) (.cons rfl hdigits)⟩
  | minus hm h =>
    have hdigits := passes_powerDigits negative whole fraction true (.inr rfl) h
    exact ⟨.power, rfl, .cons (hmark _ hm) (.cons rfl hdigits)⟩

end Reading

def EndsNumber (cs : List Char) : Prop :=
  ∀ c ∈ cs.head?, Reading.isSpace c = true ∨ c = ',' ∨ c = ']' ∨ c = '\x7d'

namespace Reading

/-- A digit begins a number in the same way as it follows a sign. -/
theorem tokens_between_of_isDigit {c : Char} (h : c.isDigit) (cs : List Char) :
    tokens .between (c :: cs) = tokens (.numeral .sign ⟨false, [], [], none⟩) (c :: cs) := by
  have hne {d : Char} (hd : d.isDigit = false) : c ≠ d := by
    rintro rfl
    rw [h] at hd
    cases hd
  obtain ⟨⟨stage, n⟩, he⟩ : ∃ r, extend? .sign ⟨false, [], [], none⟩ c = some r := by
    simp only [extend?, h, if_true]
    split <;> exact ⟨_, rfl⟩
  have hb : begin c = ([], .numeral stage n) := by
    simp (disch := decide) [begin, isSpace, hne, he]
  simp [tokens, step, hb, he]

theorem tokens_end {stage : NumeralStage} (hs : stage.isComplete = true) (n : Numeral) {cs : List Char}
    (h : EndsNumber cs) : tokens (.numeral stage n) cs = .number n :: tokens .between cs := by
  cases cs with
  | nil => simp [tokens, finish, hs]
  | cons c cs =>
    have hc : c = ' ' ∨ c = '\n' ∨ c = '\t' ∨ c = '\r' ∨ c = ',' ∨ c = ']' ∨ c = '\x7d' := by
      simpa [isSpace, or_assoc] using h c rfl
    cases stage <;> cases hs <;> rcases hc with rfl | rfl | rfl | rfl | rfl | rfl | rfl <;> rfl

theorem tokens_number {n : Numeral} {cs : List Char} (h : n.IsSpelled cs) {rest : List Char} (hr : EndsNumber rest) :
    tokens .between (cs ++ rest) = .number n :: tokens .between rest := by
  obtain @⟨negative, whole, fraction, part, power, exponent, hw, hf, hp⟩ := h
  obtain ⟨stage, hs, hwhole⟩ := passes_whole negative hw
  obtain ⟨stage', hs', hpart⟩ := passes_part negative whole hs hf
  obtain ⟨stage'', hc, hpower⟩ := passes_power negative whole fraction hs' hp
  have hall := hwhole.append (hpart.append hpower)
  rw [List.append_assoc]
  cases negative with
  | true => exact (hall rest).trans (tokens_end hc _ hr)
  | false =>
    obtain ⟨d, ds, rfl, hd⟩ : ∃ d ds, whole = d :: ds ∧ d.isDigit = true := by
      cases hw with
      | zero => exact ⟨'0', [], rfl, by decide⟩
      | digits hd _ _ => exact ⟨_, _, rfl, hd⟩
    exact (tokens_between_of_isDigit hd _).trans ((hall rest).trans (tokens_end hc _ hr))

/-! ## Tokens -/

theorem tokens_spaces {spaces : List Char} (h : ∀ c ∈ spaces, isSpace c = true) (rest : List Char) :
    tokens .between (spaces ++ rest) = tokens .between rest := by
  induction spaces with
  | nil => rfl
  | cons c spaces ih =>
    rw [List.forall_mem_cons] at h
    have hb : begin c = ([], .between) := if_pos h.1
    rw [List.cons_append, tokens, step, hb]
    exact ih h.2

theorem tokens_token {t : Token} {cs : List Char} (h : t.IsSpelled cs) {rest : List Char}
    (hr : ∀ n, t = .number n → EndsNumber rest) :
    tokens .between (cs ++ rest) = t :: tokens .between rest := by
  cases h with
  | number h => exact tokens_number h (hr _ rfl)
  | string h => exact completes_string h rest
  | boolean b => cases b <;> rfl
  | _ => rfl

end Reading

def Token.isEnd : Token → Bool
  | .comma | .closeBracket | .closeBrace => true
  | _ => false

def NumbersEnd (ts : List Token) : Prop := ts.IsChain fun t u => ∀ n, t = .number n → u.isEnd = true

theorem AreSpelled.endsNumber {ts : List Token} {cs : List Char} (h : AreSpelled ts cs)
    (ht : ∀ t ∈ ts.head?, t.isEnd = true) : EndsNumber cs := by
  cases h with
  | nil hs => exact fun c hc => .inl (hs c (List.mem_of_mem_head? hc))
  | @cons t ts spaces cs ds hs h h' =>
    cases spaces with
    | cons c spaces =>
      intro d hd
      cases hd
      exact .inl (hs c List.mem_cons_self)
    | nil =>
      have ht := ht t rfl
      intro d hd
      cases h <;> cases ht <;> cases hd <;> simp

/-- Any spelling of tokens is read as these. -/
theorem AreSpelled.tokens_eq {ts : List Token} {cs : List Char} (h : AreSpelled ts cs) (hn : NumbersEnd ts) :
    Reading.tokens .between cs = ts := by
  induction h with
  | nil hs =>
    have := Reading.tokens_spaces hs []
    rwa [List.append_nil] at this
  | @cons t ts spaces cs ds hs h h' ih =>
    obtain ⟨ht, hts⟩ := List.isChain_cons.mp hn
    have hend : ∀ n, t = .number n → EndsNumber ds := fun n hn => h'.endsNumber fun u hu => ht u hu n hn
    rw [Reading.tokens_spaces hs, Reading.tokens_token h hend, ih hts]

end Json

end ExtentLedger
