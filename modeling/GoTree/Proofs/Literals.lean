import GoTree.Builder
import GoTree.Proofs.Interning
import GoTree.Proofs.Splitting

/-!
# Literals read back

A string literal stands for a text, and this module has the way back: `Quoted.decode` reads the
inside of a literal, character by character, in one of four states (`Quoted.Reading`). The reader is
**strict**. It takes no double quote, line feed, carriage return or tab that is not escaped, no
escape that is not one of the three kinds, and no code that is not a character, so that what it
takes at all is fit to stand between quotes (`decodeFrom_cons`).

`decode_encode` says that it undoes `Quoted.encode`, by one lemma about the written form of a
character in front of any rest. `WritesLiteral` are the building actions that make a string literal,
and `literals_decodable` follows the literal into the table of names: its symbol stands for the
quoted text, and two literals of one table share a symbol exactly if they are of the same text.
-/

namespace GoTree

namespace Quoted

/-- What a reader of escaped text has in front of it. -/
inductive Reading where
  /-- A character or the start of an escape. -/
  | text
  /-- The rest of an escape, after its backslash. -/
  | escape
  /-- The brace of a code. -/
  | brace
  /-- The digits of a code, whose value so far is known after the first of them. -/
  | code (value? : Option Nat)
  deriving DecidableEq

/-- The character that a short escape stands for, by its letter. -/
def shortEscaped? (e : Char) : Option Char :=
  if e = '"' then some '"'
  else if e = '\\' then some '\\'
  else if e = '0' then some '\x00'
  else if e = 't' then some '\t'
  else if e = 'n' then some '\n'
  else if e = 'r' then some '\r'
  else none

/-- The value of a lower-case hexadecimal digit. -/
def hexDigit? (c : Char) : Option Nat :=
  ['0', '1', '2', '3', '4', '5', '6', '7', '8', '9', 'a', 'b', 'c', 'd', 'e', 'f'].idxOf? c

/-- The character of a code point. -/
def ofCode? (n : Nat) : Option Char :=
  if n.isValidChar then some (Char.ofNat n) else none

/-- Reads the rest of the inside of a literal. -/
def decodeFrom : Reading → List Char → Option (List Char)
  | .text, [] => some []
  | _, [] => none
  | .text, c :: cs =>
    if c = '\\' then decodeFrom .escape cs
    else if c ∈ ['"', '\n', '\r', '\t'] then none
    else (decodeFrom .text cs).map (c :: ·)
  | .escape, c :: cs =>
    if c = 'u' then decodeFrom .brace cs
    else (shortEscaped? c).bind fun d => (decodeFrom .text cs).map (d :: ·)
  | .brace, c :: cs => if c = '\x7b' then decodeFrom (.code none) cs else none
  | .code value?, c :: cs =>
    if c = '\x7d' then
      (value?.bind ofCode?).bind fun d => (decodeFrom .text cs).map (d :: ·)
    else (hexDigit? c).bind fun d => decodeFrom (.code (some (16 * value?.getD 0 + d))) cs

/-- The text that the inside of a literal stands for. -/
def decode (cs : List Char) : Option (List Char) :=
  decodeFrom .text cs

/-- The characters that no backslash is in front of, where a backslash that is itself escaped does
not count; `escaped` says whether there is one in front of the first character. -/
def unescaped (escaped : Bool) : List Char → List Char
  | [] => []
  | c :: cs =>
    if escaped then unescaped false cs
    else if c = '\\' then unescaped true cs
    else c :: unescaped false cs

/-! ### One character -/

private theorem shortEscaped?_of_shortEscape? {c e : Char} (h : shortEscape? c = some e) :
    e ≠ 'u' ∧ shortEscaped? e = some c := by
  unfold shortEscape? at h
  repeat' split at h
  all_goals cases h
  all_goals (subst_vars; decide)

/-- A character without a short escape may stand in a literal as it is. -/
private theorem ne_of_shortEscape?_eq_none {c : Char} (h : shortEscape? c = none) :
    c ≠ '\\' ∧ c ∉ ['"', '\n', '\r', '\t'] := by
  unfold shortEscape? at h
  repeat' split at h
  all_goals first | contradiction | simp_all

private theorem hexDigit?_digitChar {d : Nat} (h : d < 16) : hexDigit? d.digitChar = some d := by
  have hall : ∀ d < 16, hexDigit? d.digitChar = some d := by decide
  exact hall d h

private theorem digitChar_ne_brace {d : Nat} (h : d < 16) : d.digitChar ≠ '\x7d' := by
  have hall : ∀ d < 16, Nat.digitChar d ≠ '\x7d' := by decide
  exact hall d h

private theorem ofCode?_toNat (c : Char) : ofCode? c.toNat = some c := by
  have hvalid : c.toNat.isValidChar := c.valid
  rw [ofCode?, if_pos hvalid, Char.ofNat_toNat]

/-- One digit of a code. -/
private theorem decodeFrom_digit {d : Nat} (h : d < 16) (value? : Option Nat) (rest : List Char) :
    decodeFrom (.code value?) (d.digitChar :: rest) =
      decodeFrom (.code (some (16 * value?.getD 0 + d))) rest := by
  rw [decodeFrom, if_neg (digitChar_ne_brace h), hexDigit?_digitChar h]
  rfl

/-- The digits of a number have the number as their value. -/
private theorem decodeFrom_toDigits (n : Nat) (rest : List Char) :
    decodeFrom (.code none) (Nat.toDigits 16 n ++ rest) = decodeFrom (.code (some n)) rest := by
  have hbase : 1 < 16 := by decide
  induction n using Nat.base_induction 16 hbase generalizing rest with
  | single d hd =>
    rw [Nat.toDigits_of_lt_base hd, List.singleton_append, decodeFrom_digit hd]
    simp
  | digit n d hd hn ih =>
    rw [← Nat.toDigits_append_toDigits hbase hn hd, List.append_assoc, ih,
      Nat.toDigits_of_lt_base hd, List.singleton_append, decodeFrom_digit hd]
    rfl

/-- The written form of a character reads as the character, whatever follows. -/
private theorem decodeFrom_encodeChar (c : Char) (rest : List Char) :
    decodeFrom .text (encodeChar c ++ rest) = (decodeFrom .text rest).map (c :: ·) := by
  unfold encodeChar
  split
  · next e he =>
    obtain ⟨hu, hc⟩ := shortEscaped?_of_shortEscape? he
    simp [decodeFrom, hu, hc]
  · next he =>
    obtain ⟨hslash, hraw⟩ := ne_of_shortEscape?_eq_none he
    split
    · have hdigits := decodeFrom_toDigits c.toNat ('\x7d' :: rest)
      simp [decodeFrom, hdigits, ofCode?_toNat]
    · rw [List.singleton_append, decodeFrom, if_neg hslash, if_neg hraw]

/-! ### Texts -/

/-- Reading undoes writing. -/
theorem decode_encode (cs : List Char) : decode (encode cs) = some cs := by
  induction cs with
  | nil => rfl
  | cons c cs ih =>
    rw [encode, List.flatMap_cons, decode, decodeFrom_encodeChar]
    exact congrArg (Option.map (c :: ·)) ih

example : encode ['a', '"', '\n', '\u0301'] =
    ['a', '\\', '"', '\\', 'n', '\\', 'u', '\x7b', '3', '0', '1', '\x7d'] := by
  decide +kernel

/-- Different texts have different quoted forms. -/
theorem quote_injective : Function.Injective quote := by
  intro s s' h
  have hlist : '"' :: encode s.toList ++ ['"'] = '"' :: encode s'.toList ++ ['"'] :=
    String.ofList_injective h
  have hinside : encode s.toList = encode s'.toList := by simpa using hlist
  have hdecode := congrArg decode hinside
  rw [decode_encode, decode_encode] at hdecode
  exact String.toList_injective (Option.some.inj hdecode)

/-! ### Strictness -/

/-- One character that the reader takes: it is none that has to be escaped, or it is escaped, and
only a backslash that is not escaped starts an escape. -/
theorem decodeFrom_cons {r : Reading} {c : Char} {cs ds : List Char}
    (h : decodeFrom r (c :: cs) = some ds) :
    c ∉ ['\n', '\r', '\t'] ∧ (r ≠ .escape → c ≠ '"') ∧
      ∃ r' ds', decodeFrom r' cs = some ds' ∧ (r' = .escape ↔ r ≠ .escape ∧ c = '\\') := by
  cases r with
  | text =>
    rw [decodeFrom] at h
    split at h
    · next hc =>
      subst hc
      exact ⟨by decide, by decide, _, _, h, by simp⟩
    · next hc =>
      split at h
      · cases h
      · next hraw =>
        obtain ⟨ds', h, -⟩ := Option.map_eq_some_iff.mp h
        simp only [List.mem_cons, not_or] at hraw
        exact ⟨by simp [hraw], fun _ => hraw.1, _, _, h, by simp [hc]⟩
  | escape =>
    rw [decodeFrom] at h
    split at h
    · next hc =>
      subst hc
      exact ⟨by decide, by decide, _, _, h, by simp⟩
    · obtain ⟨d, hd, h⟩ := Option.bind_eq_some_iff.mp h
      obtain ⟨ds', h, -⟩ := Option.map_eq_some_iff.mp h
      have hnone : ∀ c ∈ ['\n', '\r', '\t'], shortEscaped? c = none := by simp [shortEscaped?]
      refine ⟨fun hc => ?_, fun hr => absurd rfl hr, _, _, h, by simp⟩
      simp [hnone c hc] at hd
  | brace =>
    rw [decodeFrom] at h
    split at h
    · next hc =>
      subst hc
      exact ⟨by decide, by decide, _, _, h, by simp⟩
    · cases h
  | code value? =>
    rw [decodeFrom] at h
    split at h
    · next hc =>
      subst hc
      obtain ⟨d, -, h⟩ := Option.bind_eq_some_iff.mp h
      obtain ⟨ds', h, -⟩ := Option.map_eq_some_iff.mp h
      exact ⟨by decide, fun _ => by decide, _, _, h, by simp⟩
    · obtain ⟨d, hd, h⟩ := Option.bind_eq_some_iff.mp h
      have hnone : ∀ c ∈ ['\n', '\r', '\t', '"', '\\'], hexDigit? c = none := by simp [hexDigit?]
      have hne : c ∉ ['\n', '\r', '\t', '"', '\\'] := by
        intro hc
        simp [hnone c hc] at hd
      simp only [List.mem_cons, not_or] at hne
      exact ⟨by simp [hne], fun _ => hne.2.2.2.1, _, _, h, by simp [hne]⟩

/-- The reader takes no line feed, carriage return or tab. -/
private theorem not_mem_of_decodeFrom {r : Reading} {cs ds : List Char}
    (h : decodeFrom r cs = some ds) :
    ∀ c ∈ ['\n', '\r', '\t'], c ∉ cs := by
  induction cs generalizing r ds with
  | nil => simp
  | cons c' cs ih =>
    obtain ⟨hc', -, r', ds', h', -⟩ := decodeFrom_cons h
    intro c hc hmem
    rcases List.mem_cons.mp hmem with rfl | hmem
    · exact hc' hc
    · exact ih h' c hc hmem

/-- The reader takes a double quote in an escape only. -/
private theorem not_mem_unescaped_of_decodeFrom {r : Reading} {cs ds : List Char}
    (h : decodeFrom r cs = some ds) : '"' ∉ unescaped (r = .escape) cs := by
  induction cs generalizing r ds with
  | nil => simp [unescaped]
  | cons c cs ih =>
    obtain ⟨-, hquote, r', ds', h', hr'⟩ := decodeFrom_cons h
    have ih := ih h'
    by_cases hr : r = .escape
    · simpa [unescaped, hr, hr'] using ih
    · by_cases hc : c = '\\'
      · simpa [unescaped, hr, hr', hc] using ih
      · simpa [unescaped, hr, hr', hc, (hquote hr).symm] using ih

end Quoted

/-! ### Tables with room -/

namespace NameTable

private theorem internAll_append (t : NameTable) (ss more : List String) :
    (t.internAll (ss ++ more)).2 = ((t.internAll ss).2.internAll more).2 := by
  induction ss generalizing t with
  | nil => rfl
  | cons s ss ih => exact ih _

theorem size_le_intern (t : NameTable) (s : String) : t.size ≤ (t.intern s).2.size := by
  unfold intern
  split
  · exact Nat.le_refl _
  · simp [add, size]

private theorem size_intern_le (t : NameTable) (s : String) : (t.intern s).2.size ≤ t.size + 1 := by
  unfold intern
  split
  · exact Nat.le_succ _
  · simp [add, size]

theorem size_le_internAll (t : NameTable) (ss : List String) :
    t.size ≤ (t.internAll ss).2.size := by
  induction ss generalizing t with
  | nil => exact Nat.le_refl _
  | cons s ss ih => exact Nat.le_trans (t.size_le_intern s) (ih _)

/-- One call on a table that stays countable in a word. -/
theorem Numbers.intern_of_size_lt {t : NameTable} {ss : List String} (ht : t.Numbers ss.eraseDups)
    {s : String} (hlt : (t.intern s).2.size < wordSize) :
    (t.intern s).2.Numbers (ss ++ [s]).eraseDups ∧
      (t.intern s).2.string? (t.intern s).1 = some s := by
  have hroom : (ss ++ [s]).eraseDups.length < wordSize := by
    rw [eraseDups_concat]
    split
    · exact ht.length_lt
    · next hs =>
      have hds : s ∉ ss.eraseDups := fun h => hs (List.mem_eraseDups.mp h)
      rw [ht.intern_of_notMem hds] at hlt
      simpa [NameTable.add, size, ← ht.strings_eq] using hlt
  obtain ⟨hnumbers, hindex⟩ := ht.intern s hroom
  exact ⟨hnumbers, hnumbers.string?_eq_some_iff.mpr ⟨List.mem_eraseDups.mpr (by simp), hindex⟩⟩

/-- A run on a table that stays countable in a word. -/
theorem Numbers.internAll_of_size_lt {t : NameTable} {ss more : List String}
    (ht : t.Numbers ss.eraseDups) (hlt : (t.internAll more).2.size < wordSize) :
    (t.internAll more).2.Numbers (ss ++ more).eraseDups := by
  induction more generalizing t ss with
  | nil => simpa [NameTable.internAll] using ht
  | cons s more ih =>
    have hs : (t.intern s).2.size < wordSize :=
      Nat.lt_of_le_of_lt (size_le_internAll _ more) hlt
    rw [List.append_cons]
    exact ih (ht.intern_of_size_lt hs).1 hlt

/-- Symbols of one table are equal exactly if their strings are. -/
private theorem Numbers.symbol_eq_iff {t : NameTable} {ds : List String} (ht : t.Numbers ds)
    {sym sym' : Symbol} {s s' : String} (h : t.string? sym = some s)
    (h' : t.string? sym' = some s') : sym = sym' ↔ s = s' := by
  constructor
  · rintro rfl
    exact Option.some.inj (h.symm.trans h')
  · rintro rfl
    have hindex : sym.index = sym'.index :=
      (ht.string?_eq_some_iff.mp h).2.trans (ht.string?_eq_some_iff.mp h').2.symm
    exact Symbol.index_injective hindex

end NameTable

/-! ### Literals in a table -/

/-- A building action adds a string literal of this text. -/
inductive WritesLiteral (text : String) (b : Builder) : BasicLit → Builder → Prop where
  /-- The literal is the expression that is allocated. -/
  | string {id : Id .expr} {lit : BasicLit} {b' : Builder}
      (hrun : BuildM.string text b = .ok id b')
      (hnode : b'.store = b.store.push .expr (.basicLit lit) .none) : WritesLiteral text b lit b'
  /-- The literal is the path of the import. -/
  | importSpec {name : Option String} {spec : ImportSpec} {b' : Builder}
      (hrun : BuildM.importSpec name text b = .ok (.importSpec spec) b') :
      WritesLiteral text b spec.path b'

/-- A store that is longer by one node determines the node. -/
private theorem Store.push_injective (s : Store) (c : Category) (span : Span) :
    Function.Injective fun node => s.push c node span := by
  intro x y h
  have hback := congrArg (fun s : Store => (s.table c).nodes.back?) h
  simpa [Store.push, Table.push] using hback

theorem BuildM.string_eq (text : String) (b : Builder) :
    BuildM.string text b =
      let (value, names) := b.names.intern (Quoted.quote text)
      .ok ⟨(b.store.table .expr).size.toUInt32⟩
        ⟨b.store.push .expr (.basicLit { kind := .string, value }) .none, names⟩ :=
  rfl

variable {text : String} {b b' : Builder} {lit : BasicLit}

/-- The action interns the quoted text, after a name if it has one. -/
theorem WritesLiteral.intern_eq (h : WritesLiteral text b lit b') :
    ∃ earlier, (b.names.internAll earlier).2.intern (Quoted.quote text) =
      (lit.value, b'.names) := by
  cases h with
  | string hrun hnode =>
    rw [BuildM.string_eq] at hrun
    cases hrun
    cases Expr.basicLit.inj (Store.push_injective _ _ _ hnode)
    exact ⟨[], rfl⟩
  | @importSpec name spec _ hrun =>
    refine ⟨name.toList, ?_⟩
    cases name with
    | none =>
      cases hrun
      rfl
    | some n =>
      cases hrun
      rfl

theorem WritesLiteral.exists_internAll (h : WritesLiteral text b lit b') :
    ∃ ss, b'.names = (b.names.internAll ss).2 := by
  obtain ⟨earlier, hintern⟩ := h.intern_eq
  refine ⟨earlier ++ [Quoted.quote text], ?_⟩
  rw [NameTable.internAll_append]
  exact (congrArg Prod.snd hintern).symm

private theorem WritesLiteral.names_size_lt (h : WritesLiteral text b lit b')
    (hlt : b'.names.size < wordSize) : b.names.size < wordSize := by
  obtain ⟨ss, hss⟩ := h.exists_internAll
  rw [hss] at hlt
  exact Nat.lt_of_le_of_lt (NameTable.size_le_internAll _ ss) hlt

/-- The literal of a table with room stands for the quoted text. -/
private theorem WritesLiteral.string?_eq {ss : List String} (h : WritesLiteral text b lit b')
    (hb : b.names.Numbers ss.eraseDups) (hlt : b'.names.size < wordSize) :
    ∃ ss', b'.names.Numbers (ss ++ ss').eraseDups ∧
      b'.names.string? lit.value = some (Quoted.quote text) := by
  obtain ⟨earlier, hintern⟩ := h.intern_eq
  have hlt' : ((b.names.internAll earlier).2.intern (Quoted.quote text)).2.size < wordSize := by
    rwa [hintern]
  have ht := hb.internAll_of_size_lt (Nat.lt_of_le_of_lt (NameTable.size_le_intern _ _) hlt')
  have hlit := ht.intern_of_size_lt hlt'
  rw [hintern, List.append_assoc] at hlit
  exact ⟨earlier ++ [Quoted.quote text], hlit⟩

/-- String literals can be read back. Whatever the table of names holds, the text that is interned
is quoted and its inside reads as the text of the literal; and in a table that is countable in a
word the symbol stands for it, there and in every literal written later. -/
theorem literals_decodable (b : Builder) (text : String) :
    -- both actions return a literal, and the id of an expression leads to it
    (∃ id lit b', BuildM.string text b = .ok id b' ∧ WritesLiteral text b lit b' ∧
      ((b.store.table .expr).size < wordSize → b'.store.get? id = some (.basicLit lit))) ∧
    (∀ name, ∃ spec b', BuildM.importSpec name text b = .ok (.importSpec spec) b') ∧
    ∀ lit b', WritesLiteral text b lit b' → ∃ inside earlier,
      -- what is interned is quoted, and nothing inside ends it or breaks the line
      (b.names.internAll earlier).2.intern (String.ofList ('"' :: inside ++ ['"'])) =
        (lit.value, b'.names) ∧
      '"' ∉ Quoted.unescaped false inside ∧ '\n' ∉ inside ∧ '\r' ∉ inside ∧ '\t' ∉ inside ∧
      Quoted.decode inside = some text.toList ∧
      -- in a table with room the symbol stands for it
      ∀ hash before, b.names = (NameTable.internAll { hash } before).2 →
        b'.names.size < wordSize →
        b'.names.resolve lit.value = .ok (String.ofList ('"' :: inside ++ ['"'])) ∧
        -- and a literal written later has the same symbol exactly if it is of the same text
        ∀ more b₂ text₂ lit₂ b₂', b₂.names = (b'.names.internAll more).2 →
          WritesLiteral text₂ b₂ lit₂ b₂' → b₂'.names.size < wordSize →
          (lit₂.value = lit.value ↔ text₂ = text) := by
  refine ⟨⟨_, _, _, BuildM.string_eq text b, .string (BuildM.string_eq text b) rfl, ?_⟩, ?_, ?_⟩
  · exact StoreM.get?_of_alloc rfl
  · intro name
    cases name with
    | none => exact ⟨_, _, rfl⟩
    | some n => exact ⟨_, _, rfl⟩
  · intro lit b' h
    have hdecode := Quoted.decode_encode text.toList
    have hraw := Quoted.not_mem_of_decodeFrom hdecode
    obtain ⟨earlier, hintern⟩ := h.intern_eq
    refine ⟨Quoted.encode text.toList, earlier, hintern,
      Quoted.not_mem_unescaped_of_decodeFrom hdecode, hraw _ (by simp), hraw _ (by simp),
      hraw _ (by simp), hdecode, fun hash before hbefore hlt => ?_⟩
    have hb : b.names.Numbers before.eraseDups := by
      have hnil : NameTable.Numbers { hash } ([] : List String).eraseDups :=
        NameTable.numbers_nil hash
      rw [hbefore]
      refine hnil.internAll_of_size_lt ?_
      rw [← hbefore]
      exact h.names_size_lt hlt
    obtain ⟨ss, hnumbers, hstring⟩ := h.string?_eq hb hlt
    refine ⟨NameTable.resolve_eq_ok_iff.mpr hstring, ?_⟩
    intro more b₂ text₂ lit₂ b₂' hmore h₂ hlt₂
    have hb₂ : b₂.names.Numbers (before ++ ss ++ more).eraseDups := by
      rw [hmore]
      refine hnumbers.internAll_of_size_lt ?_
      rw [← hmore]
      exact h₂.names_size_lt hlt₂
    obtain ⟨ss₂, hnumbers₂, hstring₂⟩ := h₂.string?_eq hb₂ hlt₂
    -- the symbol of the first literal still stands for its text
    have hkept : b₂'.names.string? lit.value = some (Quoted.quote text) := by
      obtain ⟨ss', hss'⟩ := h₂.exists_internAll
      rw [hss', hmore]
      exact NameTable.string?_internAll (NameTable.string?_internAll hstring more) ss'
    rw [hnumbers₂.symbol_eq_iff hstring₂ hkept]
    exact Quoted.quote_injective.eq_iff

/-- A literal, an import of the text that looks like its written form, and an import of the same
text. -/
theorem literals_decodable_lookalike :
    let text := "\"\n\u0301"
    let written := "\\\"\\n\\u\x7b301\x7d"
    ∃ id lit b₁ spec b₂ spec' b₃,
      BuildM.string text {} = .ok id b₁ ∧ b₁.store.get? id = some (.basicLit lit) ∧
      BuildM.importSpec none written b₁ = .ok (.importSpec spec) b₂ ∧
      BuildM.importSpec none text b₂ = .ok (.importSpec spec') b₃ ∧
      (∃ inside, b₁.names.resolve lit.value = .ok (String.ofList ('"' :: inside ++ ['"'])) ∧
        Quoted.decode inside = some text.toList) ∧
      spec.path.value ≠ lit.value ∧ spec'.path.value = lit.value := by
  intro text written
  obtain ⟨⟨id, lit, b₁, hrun₁, h₁, hget⟩, -, hread⟩ := literals_decodable {} text
  obtain ⟨inside, -, -, -, -, -, -, hdecode, hsymbol⟩ := hread lit b₁ h₁
  obtain ⟨spec, b₂, hrun₂, hnames₂⟩ : ∃ spec b₂,
      BuildM.importSpec none written b₁ = .ok (.importSpec spec) b₂ ∧
      b₂.names = (b₁.names.internAll [Quoted.quote written]).2 := ⟨_, _, rfl, rfl⟩
  obtain ⟨spec', b₃, hrun₃, hnames₃⟩ : ∃ spec' b₃,
      BuildM.importSpec none text b₂ = .ok (.importSpec spec') b₃ ∧
      b₃.names = (b₂.names.intern (Quoted.quote text)).2 := ⟨_, _, rfl, rfl⟩
  have hword : 3 < wordSize := by decide
  have hsize₁ : b₁.names.size ≤ 1 := by
    cases hrun₁
    exact NameTable.size_intern_le _ _
  have hsize₂ : b₂.names.size ≤ b₁.names.size + 1 := by
    rw [hnames₂]
    exact NameTable.size_intern_le _ _
  have hsize₃ : b₃.names.size ≤ b₂.names.size + 1 := by
    rw [hnames₃]
    exact NameTable.size_intern_le _ _
  obtain ⟨hresolve, hlater⟩ := hsymbol (fun s => s.hash) [] rfl (by omega)
  refine ⟨id, lit, b₁, spec, b₂, spec', b₃, hrun₁, hget (by decide), hrun₂, hrun₃,
    ⟨inside, hresolve, hdecode⟩, ?_, ?_⟩
  · rw [ne_eq, hlater [] b₁ _ _ _ rfl (.importSpec hrun₂) (by omega)]
    decide
  · exact (hlater _ b₂ _ _ _ hnames₂ (.importSpec hrun₃) (by omega)).mpr rfl

end GoTree
