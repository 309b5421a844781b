import Chronicle.Json.Document
import Chronicle.Proofs.NumberTexts

/-!
# The documents of JSON texts

The text of a JSON value is scanned into tokens and put together to a document,
and this document can be told from the value itself: every text is the one that
was quoted and every number the numeral of its text. A number is told apart from
what follows it because the value, and each of its parts, stands before a
bracket, a comma or the end.
-/

namespace Chronicle.Json

namespace Token

/-- The tokens that a character completes stand ahead of those of the rest. -/
theorem scanFrom_cons (state : State) (c : Char) (rest : List Char) :
    scanFrom state (c :: rest) =
      (step state c).bind fun done => (scanFrom done.2 rest).map (done.1 ++ ·) := by
  rw [scanFrom]
  cases step state c with
  | none => rfl
  | some done =>
    dsimp only [bind, Option.bind]
    cases scanFrom done.2 rest <;> rfl

/-- A character that completes no token only changes the state. -/
theorem scanFrom_of_step {state next : State} {c : Char} (h : step state c = some ([], next))
    (rest : List Char) : scanFrom state (c :: rest) = scanFrom next rest := by
  simp only [scanFrom_cons, h, Option.bind_some, List.nil_append, Option.map_id']

/-- A short escape stands for a character. -/
theorem scanFrom_short {e c : Char} (he : e ≠ 'u') (h : ofEscape? e = some c) (read : List Piece)
    (rest : List Char) :
    scanFrom (.quoted read) ('\\' :: e :: rest) = scanFrom (.quoted (.char c :: read)) rest := by
  have hopen : step (.quoted read) '\\' = some ([], .escaped read) := rfl
  have hclose : step (.escaped read) e = some ([], .quoted (.char c :: read)) := by
    rw [step, if_neg he, h, Option.map_some]
  rw [scanFrom_of_step hopen, scanFrom_of_step hclose]

/-- A digit of a code unit is taken with those before it. -/
theorem scanFrom_coded {c : Char} {d : Nat} (h : Text.Hex.digitValue c = some d)
    (read : List Piece) (code missing : Nat) (rest : List Char) :
    scanFrom (.coded read code (missing + 1)) (c :: rest) =
        scanFrom (.coded read (code * 16 + d) missing) rest ∧
      scanFrom (.coded read code 0) (c :: rest) =
        scanFrom (.quoted (.unit (code * 16 + d) :: read)) rest := by
  constructor <;> exact scanFrom_of_step (by rw [step, h]; rfl) rest

/-- A code unit of a control character is read. -/
theorem scanFrom_code {code : Nat} (h : code < 256) (read : List Piece) (rest : List Char) :
    scanFrom (.quoted read) ('\\' :: 'u' :: '0' :: '0' :: Text.Hex.digit (code / 16) ::
        Text.Hex.digit (code % 16) :: rest) =
      scanFrom (.quoted (.unit code :: read)) rest := by
  have hzero : Text.Hex.digitValue '0' = some 0 := by decide
  have hhigh := Text.Hex.digitValue_digit (n := code / 16) (by omega)
  have hlow := Text.Hex.digitValue_digit (n := code % 16) (by omega)
  have hopen : step (.quoted read) '\\' = some ([], .escaped read) := rfl
  have hcoded : step (.escaped read) 'u' = some ([], .coded read 0 3) := rfl
  rw [scanFrom_of_step hopen, scanFrom_of_step hcoded, (scanFrom_coded hzero read _ _ _).1,
    (scanFrom_coded hzero read _ _ _).1, (scanFrom_coded hhigh read _ _ _).1,
    (scanFrom_coded hlow read _ 0 _).2]
  congr 4
  omega

/-- A code unit that is not half of a surrogate pair is a character. -/
theorem characters?_unit {code : Nat} (hleads : leads code = false) (htrails : trails code = false)
    (rest : List Piece) :
    characters? (.unit code :: rest) = (characters? rest).map (Char.ofNat code :: ·) := by
  rcases rest with _ | ⟨_ | _, rest⟩ <;> simp [characters?, hleads, htrails]

/-- A character is quoted by a short escape, by its code or as itself. -/
theorem escape_cases (c : Char) :
    (∃ e, escape c = ['\\', e] ∧ e ≠ 'u' ∧ ofEscape? e = some c) ∨
      (c.toNat < 32 ∧ escape c = ['\\', 'u', '0', '0', Text.Hex.digit (c.toNat / 16),
        Text.Hex.digit (c.toNat % 16)]) ∨
      (c ≠ '"' ∧ c ≠ '\\' ∧ ¬c.toNat < 32 ∧ escape c = [c]) := by
  have hchar {code : Nat} (h : c.toNat = code) : Char.ofNat code = c := by
    rw [← h, Char.ofNat_toNat]
  rw [escape]
  split_ifs with hquote hslash hline hreturn htab hback hfeed hcontrol
  · exact .inl ⟨_, rfl, by decide, by rw [hquote]; rfl⟩
  · exact .inl ⟨_, rfl, by decide, by rw [hslash]; rfl⟩
  · exact .inl ⟨_, rfl, by decide, by rw [hline]; rfl⟩
  · exact .inl ⟨_, rfl, by decide, by rw [hreturn]; rfl⟩
  · exact .inl ⟨_, rfl, by decide, by rw [htab]; rfl⟩
  · exact .inl ⟨_, rfl, by decide, by rw [← hchar hback]; rfl⟩
  · exact .inl ⟨_, rfl, by decide, by rw [← hchar hfeed]; rfl⟩
  · exact .inr (.inl ⟨hcontrol, rfl⟩)
  · exact .inr (.inr ⟨hquote, hslash, hcontrol, rfl⟩)

/-- A quoted character is read as one element, which stands for it. -/
theorem scanFrom_escape (c : Char) :
    ∃ piece, (∀ read rest, scanFrom (.quoted read) (escape c ++ rest) =
        scanFrom (.quoted (piece :: read)) rest) ∧
      ∀ more, characters? (piece :: more) = (characters? more).map (c :: ·) := by
  obtain ⟨e, hescape, he, hc⟩ | ⟨hcontrol, hescape⟩ | ⟨hquote, hslash, hcontrol, hescape⟩ :=
    escape_cases c
  · refine ⟨.char c, fun read rest => ?_, fun more => rfl⟩
    rw [hescape]
    exact scanFrom_short he hc read rest
  · refine ⟨.unit c.toNat, fun read rest => ?_, fun more => ?_⟩
    · rw [hescape]
      exact scanFrom_code (by omega) read rest
    · have hleads : leads c.toNat = false := by rw [leads, decide_eq_false (by omega)]
      have htrails : trails c.toNat = false := by rw [trails, decide_eq_false (by omega)]
      rw [characters?_unit hleads htrails, Char.ofNat_toNat]
  · refine ⟨.char c, fun read rest => ?_, fun more => rfl⟩
    rw [hescape, List.singleton_append, scanFrom_of_step]
    rw [step, if_neg hquote, if_neg hslash, if_neg hcontrol]

/-- Quoted characters are read as elements, which stand for them. -/
theorem scanFrom_flatMap_escape (text : List Char) :
    ∃ pieces, characters? pieces = some text ∧
      ∀ read rest, scanFrom (.quoted read) (text.flatMap escape ++ rest) =
        scanFrom (.quoted (pieces.reverse ++ read)) rest := by
  induction text with
  | nil => exact ⟨[], rfl, fun read rest => rfl⟩
  | cons c text ih =>
    obtain ⟨piece, hpiece, hc⟩ := scanFrom_escape c
    obtain ⟨pieces, hpieces, htext⟩ := ih
    refine ⟨piece :: pieces, by rw [hc, hpieces, Option.map_some], fun read rest => ?_⟩
    rw [List.flatMap_cons, List.append_assoc, hpiece, htext, List.reverse_cons, List.append_assoc,
      List.singleton_append]

/-- A quoted text is one token. -/
theorem scanFrom_quote (s : String) (rest : List Char) :
    scanFrom .between (quote s ++ rest) =
      (scanFrom .between rest).map (.string (some s) :: ·) := by
  obtain ⟨pieces, hpieces, hscan⟩ := scanFrom_flatMap_escape s.toList
  have hopen : step .between '"' = some ([], .quoted []) := rfl
  have hend : step (.quoted pieces.reverse) '"' = some ([.string (some s)], .between) := by
    rw [step, if_pos rfl, ofPieces, List.reverse_reverse, hpieces, Option.map_some,
      String.ofList_toList]
  rw [quote, List.append_assoc, List.cons_append, scanFrom_of_step hopen, hscan,
    List.append_nil, List.singleton_append, scanFrom_cons, hend, Option.bind_some]
  rfl

/-- Whether a literal or number ends here. -/
def Stops (rest : List Char) : Prop := ∀ c ∈ rest.head?, isBare c = false

/-- The start of a literal or number. -/
theorem start_of_isBare {c : Char} (h : isBare c = true) : start c = some ([], .bare [c]) := by
  unfold start
  split <;> first | cases h | exact if_pos h

/-- Characters of a literal or number are all taken. -/
theorem scanFrom_bare_append {text : List Char} (h : ∀ c ∈ text, isBare c = true)
    (read rest : List Char) :
    scanFrom (.bare read) (text ++ rest) = scanFrom (.bare (text.reverse ++ read)) rest := by
  induction text generalizing read with
  | nil => rfl
  | cons c text ih =>
    obtain ⟨hc, htext⟩ := List.forall_mem_cons.mp h
    have hstep : step (.bare read) c = some ([], .bare (c :: read)) := by rw [step, if_pos hc]
    rw [List.cons_append, scanFrom_of_step hstep, ih htext, List.reverse_cons, List.append_assoc,
      List.singleton_append]

/-- A literal or number is a token where it ends. -/
theorem scanFrom_bare_of_stops {rest : List Char} (h : Stops rest) (read : List Char) :
    scanFrom (.bare read) rest =
      (ofBare? read.reverse).bind fun token => (scanFrom .between rest).map (token :: ·) := by
  cases rest with
  | nil =>
    rw [scanFrom, finish, scanFrom, finish]
    cases ofBare? read.reverse <;> rfl
  | cons c rest =>
    have hc : isBare c = false := h c rfl
    rw [scanFrom_cons, scanFrom_cons, step, step, if_neg (by rw [hc]; decide)]
    cases ofBare? read.reverse with
    | none => rfl
    | some token =>
      cases start c with
      | none => rfl
      | some done =>
        dsimp only [bind, Option.bind, pure]
        cases scanFrom done.2 rest <;> rfl

/-- Characters of a literal or number are its token where it ends. -/
theorem scanFrom_bare {text : List Char} (h : ∀ c ∈ text, isBare c = true) (hne : text ≠ [])
    {rest : List Char} (hrest : Stops rest) :
    scanFrom .between (text ++ rest) =
      (ofBare? text).bind fun token => (scanFrom .between rest).map (token :: ·) := by
  obtain ⟨c, text, rfl⟩ := List.exists_cons_of_ne_nil hne
  obtain ⟨hc, htext⟩ := List.forall_mem_cons.mp h
  have hstart : step .between c = some ([], .bare [c]) := start_of_isBare hc
  rw [List.cons_append, scanFrom_of_step hstart, scanFrom_bare_append htext,
    scanFrom_bare_of_stops hrest, List.reverse_append, List.reverse_reverse,
    List.reverse_singleton, List.singleton_append]

/-- A character of a number belongs to literals and numbers. -/
theorem isBare_of_isNumeric {c : Char} (h : Numeral.isNumeric c = true) : isBare c = true := by
  simp only [Numeral.isNumeric, Bool.or_eq_true, beq_iff_eq] at h
  obtain (((h | rfl) | rfl) | rfl) | rfl := h
  · rw [isBare, Char.isAlphanum, h, Bool.or_true]
    rfl
  all_goals rfl

/-- A text of numbers is no literal. -/
theorem ofBare?_of_isNumeric {text : List Char} (h : ∀ c ∈ text, Numeral.isNumeric c = true) :
    ofBare? text = (Numeral.ofChars? text).map .number := by
  have hnot {literal : List Char} {c : Char} (hc : c ∈ literal)
      (hfalse : Numeral.isNumeric c = false) : text ≠ literal := by
    rintro rfl
    exact Bool.false_ne_true (hfalse.symm.trans (h c hc))
  rw [ofBare?, if_neg (hnot (c := 'l') (by decide) rfl), if_neg (hnot (c := 't') (by decide) rfl),
    if_neg (hnot (c := 'l') (by decide) rfl)]

/-- A number is a token where it ends. -/
theorem scanFrom_number {s : String} (h : Numeral.IsNumeric s) (hne : s ≠ "") {rest : List Char}
    (hrest : Stops rest) :
    scanFrom .between (s.toList ++ rest) =
      ((Numeral.ofChars? s.toList).map Token.number).bind fun token =>
        (scanFrom .between rest).map (token :: ·) := by
  rw [scanFrom_bare (fun c hc => isBare_of_isNumeric (h c hc)) (by simpa using hne) hrest,
    ofBare?_of_isNumeric h]

end Token

namespace Document

mutual

/-- The tokens of a document. -/
def tokens : Document → List Token
  | .null => [.null]
  | .bool b => [.bool b]
  | .number n => [.number n]
  | .string content => [.string content]
  | .array [] => [.openArray, .closeArray]
  | .array (first :: rest) => .openArray :: (tokens first ++ elementTokens rest)
  | .object [] => [.openObject, .closeObject]
  | .object (first :: rest) => .openObject :: (memberTokens first ++ moreMemberTokens rest)

/-- The tokens of the elements after the first, and the closing bracket. -/
def elementTokens : List Document → List Token
  | [] => [.closeArray]
  | d :: rest => .comma :: (tokens d ++ elementTokens rest)

/-- The tokens of one member. -/
def memberTokens : Option String × Document → List Token
  | (name, d) => .string name :: .colon :: tokens d

/-- The tokens of the members after the first, and the closing brace. -/
def moreMemberTokens : List (Option String × Document) → List Token
  | [] => [.closeObject]
  | m :: rest => .comma :: (memberTokens m ++ moreMemberTokens rest)

end

/-- No document starts with a closing bracket. -/
theorem exists_tokens_cons (d : Document) :
    ∃ token rest, d.tokens = token :: rest ∧ token ≠ .closeArray := by
  rcases d with _ | b | n | content | (_ | ⟨first, rest⟩) | (_ | ⟨first, rest⟩)
  all_goals
    rw [tokens]
    exact ⟨_, _, rfl, by simp⟩

/-- A token leads from one place to the next. -/
theorem foldlM_cons {place next : Place} {token : Token} (h : advance place token = some next)
    (more : List Token) : (token :: more).foldlM advance place = more.foldlM advance next := by
  rw [List.foldlM_cons, h, Option.bind_eq_bind, Option.bind_some]

/-- Tokens lead on from the place that those before them lead to. -/
theorem foldlM_append {place next : Place} {first : List Token}
    (h : first.foldlM advance place = some next) (more : List Token) :
    (first ++ more).foldlM advance place = more.foldlM advance next := by
  rw [List.foldlM_append, h, Option.bind_eq_bind, Option.bind_some]

/-- The first element of an array is taken like any other. -/
theorem foldlM_arrayStart (d : Document) (outer : List Container) :
    d.tokens.foldlM advance (.arrayStart outer) =
      d.tokens.foldlM advance (.value (.array [] :: outer)) := by
  obtain ⟨token, rest, hd, htoken⟩ := exists_tokens_cons d
  have hadvance : advance (.arrayStart outer) token =
      advance (.value (.array [] :: outer)) token := by
    cases token <;> first | rfl | exact absurd rfl htoken
  rw [hd, List.foldlM_cons, List.foldlM_cons, hadvance]

/-- The first member of an object is taken like any other. -/
theorem foldlM_objectStart (m : Option String × Document) (outer : List Container) :
    (memberTokens m).foldlM advance (.objectStart outer) =
      (memberTokens m).foldlM advance (.name outer []) := by
  obtain ⟨name, d⟩ := m
  rfl

mutual

/-- The tokens of a document put it into the innermost open container. -/
theorem foldlM_tokens : ∀ (d : Document) (outer : List Container),
    d.tokens.foldlM advance (.value outer) = some (close d outer)
  | .null, _ => rfl
  | .bool _, _ => rfl
  | .number _, _ => rfl
  | .string _, _ => rfl
  | .array [], _ => rfl
  | .array (first :: rest), outer => by
    have hopen : advance (.value outer) .openArray = some (.arrayStart outer) := rfl
    have hfirst : (tokens first).foldlM advance (.arrayStart outer) =
        some (.arrayNext outer [first]) :=
      (foldlM_arrayStart first outer).trans (foldlM_tokens first _)
    rw [tokens, foldlM_cons hopen, foldlM_append hfirst]
    exact foldlM_elementTokens rest outer [first]
  | .object [], _ => rfl
  | .object (first :: rest), outer => by
    have hopen : advance (.value outer) .openObject = some (.objectStart outer) := rfl
    have hfirst : (memberTokens first).foldlM advance (.objectStart outer) =
        some (.objectNext outer [first]) :=
      (foldlM_objectStart first outer).trans (foldlM_memberTokens first outer [])
    rw [tokens, foldlM_cons hopen, foldlM_append hfirst]
    exact foldlM_moreMemberTokens rest outer [first]

/-- The tokens of the elements after the first complete the array. -/
theorem foldlM_elementTokens : ∀ (l : List Document) (outer : List Container)
    (earlier : List Document), (elementTokens l).foldlM advance (.arrayNext outer earlier) =
      some (close (.array (earlier.reverse ++ l)) outer)
  | [], _, earlier => by
    rw [List.append_nil]
    rfl
  | d :: rest, outer, earlier => by
    have hcomma : advance (.arrayNext outer earlier) .comma =
        some (.value (.array earlier :: outer)) := rfl
    rw [elementTokens, foldlM_cons hcomma, foldlM_append (foldlM_tokens d _), close,
      foldlM_elementTokens rest, List.reverse_cons, List.append_assoc, List.singleton_append]

/-- The tokens of a member put it into the object. -/
theorem foldlM_memberTokens : ∀ (m : Option String × Document) (outer : List Container)
    (earlier : List (Option String × Document)),
    (memberTokens m).foldlM advance (.name outer earlier) = some (.objectNext outer (m :: earlier))
  | (name, d), outer, earlier => by
    have hname : advance (.name outer earlier) (.string name) =
        some (.colon outer earlier name) := rfl
    have hcolon : advance (.colon outer earlier name) .colon =
        some (.value (.object earlier name :: outer)) := rfl
    rw [memberTokens, foldlM_cons hname, foldlM_cons hcolon]
    exact foldlM_tokens d _

/-- The tokens of the members after the first complete the object. -/
theorem foldlM_moreMemberTokens : ∀ (l : List (Option String × Document)) (outer : List Container)
    (earlier : List (Option String × Document)),
    (moreMemberTokens l).foldlM advance (.objectNext outer earlier) =
      some (close (.object (earlier.reverse ++ l)) outer)
  | [], _, earlier => by
    rw [List.append_nil]
    rfl
  | m :: rest, outer, earlier => by
    have hcomma : advance (.objectNext outer earlier) .comma = some (.name outer earlier) := rfl
    rw [moreMemberTokens, foldlM_cons hcomma, foldlM_append (foldlM_memberTokens m _ _),
      foldlM_moreMemberTokens rest, List.reverse_cons, List.append_assoc, List.singleton_append]

end

/-- The tokens of a document are put together to it. -/
theorem ofTokens?_tokens (d : Document) : ofTokens? d.tokens = some d := by
  rw [ofTokens?, foldlM_tokens]
  rfl

end Document

mutual

/-- The document of a JSON value. A float has one if its text is a numeral. -/
def document? : Json → Option Document
  | .null => some .null
  | .bool b => some (.bool b)
  | .integer n => some (.number (.ofInt n))
  | .float x =>
    if x.isFinite then (Numeral.ofChars? (floatText x).toList).map .number else some .null
  | .string s => some (.string (some s))
  | .array elements => (elementDocuments? elements).map .array
  | .object members => (memberDocuments? members).map .object

/-- The documents of the elements of an array. -/
def elementDocuments? : List Json → Option (List Document)
  | [] => some []
  | j :: rest => do
    let d ← document? j
    let ds ← elementDocuments? rest
    return d :: ds

/-- The document of a member with its name. -/
def memberDocument? : String × Json → Option (Option String × Document)
  | (name, j) => (document? j).map (some name, ·)

/-- The documents of the members of an object with their names. -/
def memberDocuments? : List (String × Json) → Option (List (Option String × Document))
  | [] => some []
  | m :: rest => do
    let member ← memberDocument? m
    let members ← memberDocuments? rest
    return member :: members

end

open Document Token

/-- A character that is a token by itself. -/
theorem scanFrom_token {c : Char} {token : Token} (h : start c = some ([token], .between))
    (rest : List Char) :
    scanFrom .between (c :: rest) = (scanFrom .between rest).map (token :: ·) := by
  have hstep : step .between c = some ([token], .between) := h
  rw [scanFrom_cons, hstep, Option.bind_some]
  rfl

theorem stops_elementChars (l : List Json) (rest : List Char) :
    Stops (elementChars l ++ rest) := by
  cases l <;> rintro c ⟨⟩ <;> rfl

theorem stops_moreMemberChars (l : List (String × Json)) (rest : List Char) :
    Stops (moreMemberChars l ++ rest) := by
  cases l <;> rintro c ⟨⟩ <;> rfl

/-- A literal is the token that it spells where it ends. -/
theorem scanFrom_literal {text : List Char} {token : Token} (h : ofBare? text = some token)
    (hbare : text.all isBare = true) (hne : text ≠ []) {rest : List Char} (hrest : Stops rest) :
    scanFrom .between (text ++ rest) = (scanFrom .between rest).map (token :: ·) := by
  rw [scanFrom_bare (List.all_eq_true.mp hbare) hne hrest, h, Option.bind_some]

/-- A number is scanned into its numeral. -/
theorem scanFrom_numeral {s : String} (h : Numeral.IsNumeric s) (hne : s ≠ "") {rest : List Char}
    (hrest : Stops rest) :
    scanFrom .between (s.toList ++ rest) =
      ((Numeral.ofChars? s.toList).map Document.number).bind fun d =>
        (scanFrom .between rest).map (d.tokens ++ ·) := by
  rw [scanFrom_number h hne hrest]
  cases Numeral.ofChars? s.toList <;> rfl

/-- The tokens of two parts stand one after the other, behind the token ahead of
them. -/
theorem map_cons_bind {α β : Type} (token : Token) (first : Option α) (others : Option β)
    (more : Option (List Token)) (f : α → List Token) (g : β → List Token) :
    (first.bind fun a => (others.bind fun b => more.map (g b ++ ·)).map (f a ++ ·)).map
        (token :: ·) =
      first.bind fun a => others.bind fun b => more.map ((token :: (f a ++ g b)) ++ ·) := by
  cases first <;> cases others <;> cases more <;> simp

mutual

/-- The text of a JSON value is scanned into the tokens of its document. -/
theorem scanFrom_chars : ∀ (j : Json) (rest : List Char), Stops rest →
    scanFrom .between (j.chars ++ rest) =
      j.document?.bind fun d => (scanFrom .between rest).map (d.tokens ++ ·)
  | .null, _, hrest => scanFrom_literal rfl rfl (by decide) hrest
  | .bool true, _, hrest => scanFrom_literal rfl rfl (by decide) hrest
  | .bool false, _, hrest => scanFrom_literal rfl rfl (by decide) hrest
  | .integer n, _, hrest => by
    have htext := Numeral.isNumeric_int n
    have hscan := scanFrom_numeral htext.1 htext.2 hrest
    rw [Numeral.ofChars?_toString] at hscan
    exact hscan
  | .float x, _, hrest => by
    rw [chars, document?]
    split
    · rename_i hfinite
      have htext := Numeral.isNumeric_floatText hfinite
      exact scanFrom_numeral htext.1 htext.2 hrest
    · rename_i hfinite
      rw [floatText, if_neg hfinite]
      exact scanFrom_literal rfl rfl (by decide) hrest
  | .string s, rest, _ => scanFrom_quote s rest
  | .array [], rest, _ => by
    have hopen : start '[' = some ([.openArray], .between) := rfl
    have hclose : start ']' = some ([.closeArray], .between) := rfl
    rw [chars, List.cons_append, scanFrom_token hopen, List.singleton_append,
      scanFrom_token hclose, Option.map_map]
    rfl
  | .array (first :: others), rest, _ => by
    have hopen : start '[' = some ([.openArray], .between) := rfl
    rw [chars, List.cons_append, List.append_assoc, scanFrom_token hopen,
      scanFrom_chars first _ (stops_elementChars others rest), scanFrom_elementChars others rest,
      map_cons_bind, document?, elementDocuments?]
    cases document? first <;> cases elementDocuments? others <;> rfl
  | .object [], rest, _ => by
    have hopen : start '\x7b' = some ([.openObject], .between) := rfl
    have hclose : start '\x7d' = some ([.closeObject], .between) := rfl
    rw [chars, List.cons_append, scanFrom_token hopen, List.singleton_append,
      scanFrom_token hclose, Option.map_map]
    rfl
  | .object (first :: others), rest, _ => by
    have hopen : start '\x7b' = some ([.openObject], .between) := rfl
    rw [chars, List.cons_append, List.append_assoc, scanFrom_token hopen,
      scanFrom_memberChars first _ (stops_moreMemberChars others rest),
      scanFrom_moreMemberChars others rest, map_cons_bind, document?, memberDocuments?]
    cases memberDocument? first <;> cases memberDocuments? others <;> rfl

/-- The elements after the first are scanned up to the closing bracket. -/
theorem scanFrom_elementChars : ∀ (l : List Json) (rest : List Char),
    scanFrom .between (elementChars l ++ rest) =
      (elementDocuments? l).bind fun ds => (scanFrom .between rest).map (elementTokens ds ++ ·)
  | [], rest => scanFrom_token rfl rest
  | j :: others, rest => by
    have hcomma : start ',' = some ([.comma], .between) := rfl
    rw [elementChars, List.cons_append, List.append_assoc, scanFrom_token hcomma,
      scanFrom_chars j _ (stops_elementChars others rest), scanFrom_elementChars others rest,
      map_cons_bind, elementDocuments?]
    cases document? j <;> cases elementDocuments? others <;> rfl

/-- A member is scanned into its tokens. -/
theorem scanFrom_memberChars : ∀ (m : String × Json) (rest : List Char), Stops rest →
    scanFrom .between (memberChars m ++ rest) =
      (memberDocument? m).bind fun d => (scanFrom .between rest).map (memberTokens d ++ ·)
  | (name, j), rest, hrest => by
    have hcolon : start ':' = some ([.colon], .between) := rfl
    rw [memberChars, List.append_assoc, List.cons_append, scanFrom_quote, scanFrom_token hcolon,
      scanFrom_chars j rest hrest, memberDocument?]
    cases document? j <;> cases scanFrom .between rest <;> rfl

/-- The members after the first are scanned up to the closing brace. -/
theorem scanFrom_moreMemberChars : ∀ (l : List (String × Json)) (rest : List Char),
    scanFrom .between (moreMemberChars l ++ rest) =
      (memberDocuments? l).bind fun ds => (scanFrom .between rest).map (moreMemberTokens ds ++ ·)
  | [], rest => scanFrom_token rfl rest
  | m :: others, rest => by
    have hcomma : start ',' = some ([.comma], .between) := rfl
    rw [moreMemberChars, List.cons_append, List.append_assoc, scanFrom_token hcomma,
      scanFrom_memberChars m _ (stops_moreMemberChars others rest),
      scanFrom_moreMemberChars others rest, map_cons_bind, memberDocuments?]
    cases memberDocument? m <;> cases memberDocuments? others <;> rfl

end

/-- The text of a JSON value is read as its document. A text without one is not
read. -/
theorem ofText?_text (j : Json) : Document.ofText? j.text = j.document? := by
  have hscan := scanFrom_chars j [] (by rintro c ⟨⟩)
  rw [List.append_nil] at hscan
  rw [Document.ofText?, text, String.toList_ofList, scan, hscan]
  cases j.document? with
  | none => rfl
  | some d => simp [scanFrom, finish, ofTokens?_tokens]

end Chronicle.Json
