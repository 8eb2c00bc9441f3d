import GoTree.NameTable
import Mathlib.Data.List.Nodup

/-!
# Interning

`NameTable.internAll` interns a list of strings one after the other. The table it leaves numbers the
distinct strings of the list in the order in which they first came, whatever the hash function: the
buckets may mix strings that collide, but each symbol lies in the bucket of its own string and
nowhere else.

That is the invariant `NameTable.Numbers t ds`: the strings of `t` are the distinct strings `ds`,
and a bucket holds exactly the symbols of the strings that hash to it. `Numbers.intern` says what
one call keeps and `Numbers.internAll` what a run keeps. Under the invariant `find?` and `string?`
are inverse to each other, so symbols and strings correspond one to one.
-/

namespace GoTree

/-- Different symbols have different indices. -/
theorem Symbol.index_injective : Function.Injective Symbol.index := by
  rintro ⟨a⟩ ⟨b⟩ h
  exact congrArg Symbol.mk (UInt32.toNat_inj.mp h)

namespace NameTable

/-- Interns strings one after the other: their symbols, and the table after the last of them. -/
def internAll (t : NameTable) : List String → List Symbol × NameTable
  | [] => ([], t)
  | s :: ss =>
    let (sym, t') := t.intern s
    let (syms, t'') := internAll t' ss
    (sym :: syms, t'')

/-! ### Distinct strings -/

/-- The distinct strings of a list grow by a new string only. -/
theorem eraseDups_concat (ss : List String) (s : String) :
    (ss ++ [s]).eraseDups = if s ∈ ss then ss.eraseDups else ss.eraseDups ++ [s] := by
  rw [List.eraseDups_append, List.removeAll]
  split
  · next h => simp [h]
  · next h => simp [h, List.eraseDups_cons]

/-- The distinct strings of a list come first among those of every continuation. -/
private theorem eraseDups_prefix_append (ss more : List String) :
    ss.eraseDups <+: (ss ++ more).eraseDups := by
  rw [List.eraseDups_append]
  exact List.prefix_append _ _

/-! ### The invariant -/

/-- The table holds the distinct strings `ds` in this order, each in the bucket of its hash. -/
structure Numbers (t : NameTable) (ds : List String) : Prop where
  strings_eq : t.strings.toList = ds
  nodup : ds.Nodup
  length_lt : ds.length < wordSize
  mem_bucket : ∀ h sym, sym ∈ t.bucket h ↔ ∃ s, t.string? sym = some s ∧ t.hash s = h

variable {t t' : NameTable} {ds ss : List String} {s : String} {sym : Symbol}

/-- A new table holds nothing. -/
theorem numbers_nil (hash : String → UInt64) : Numbers { hash } [] where
  strings_eq := rfl
  nodup := List.nodup_nil
  length_lt := by decide
  mem_bucket h sym := by simp [bucket, string?]

theorem resolve_eq_ok_iff : t.resolve sym = .ok s ↔ t.string? sym = some s := by
  unfold resolve
  split <;> simp_all

/-- Resolving fails in one way only. -/
private theorem resolve_eq_error_iff :
    t.resolve sym = .error .invalidSymbol ↔ t.size ≤ sym.index := by
  rw [size, ← Array.getElem?_eq_none_iff]
  unfold resolve string?
  split <;> simp_all

/-- A new string is appended to the bucket of its hash. -/
private theorem bucket_add (t : NameTable) (s : String) (h : UInt64) :
    (t.add s).2.bucket h = t.bucket h ++ if t.hash s = h then [(t.add s).1] else [] := by
  simp only [add, bucket, Std.HashMap.getD_alter, beq_iff_eq]
  split
  · next hh => simp [← hh, Std.HashMap.getD_eq_getD_getElem?]
  · simp

namespace Numbers

private theorem size_eq (ht : t.Numbers ds) : t.size = ds.length := by
  rw [size, ← ht.strings_eq, Array.length_toList]

theorem string?_eq (ht : t.Numbers ds) (sym : Symbol) : t.string? sym = ds[sym.index]? := by
  rw [string?, ← ht.strings_eq, Array.getElem?_toList]

/-- A symbol stands for the string whose position it is. -/
theorem string?_eq_some_iff (ht : t.Numbers ds) :
    t.string? sym = some s ↔ s ∈ ds ∧ sym.index = ds.idxOf s := by
  rw [ht.string?_eq]
  constructor
  · intro h
    obtain ⟨hi, rfl⟩ := List.getElem?_eq_some_iff.mp h
    exact ⟨List.getElem_mem hi, (ht.nodup.idxOf_getElem _ hi).symm⟩
  · rintro ⟨hs, hi⟩
    rw [hi]
    exact List.getElem?_idxOf hs

/-- Looking a string up is the inverse of reading a symbol. The bucket of the string holds its
symbol, and no other symbol stands for it. -/
theorem find?_eq_some_iff (ht : t.Numbers ds) :
    t.find? s = some sym ↔ t.string? sym = some s := by
  constructor
  · intro h
    simpa using List.find?_some h
  · intro h
    have hmem : sym ∈ t.bucket (t.hash s) := (ht.mem_bucket _ _).mpr ⟨s, h, rfl⟩
    have hsome : (t.find? s).isSome := List.find?_isSome.mpr ⟨sym, hmem, by simp [h]⟩
    obtain ⟨sym', h'⟩ := Option.isSome_iff_exists.mp hsome
    have hs' : t.string? sym' = some s := by simpa using List.find?_some h'
    have hindex : sym'.index = sym.index :=
      (ht.string?_eq_some_iff.mp hs').2.trans (ht.string?_eq_some_iff.mp h).2.symm
    rw [h', Symbol.index_injective hindex]

/-- A string is found exactly at its position. -/
theorem find?_eq_some_iff_idxOf (ht : t.Numbers ds) :
    t.find? s = some sym ↔ s ∈ ds ∧ sym.index = ds.idxOf s :=
  ht.find?_eq_some_iff.trans ht.string?_eq_some_iff

/-- Every string of the table has a symbol. -/
private theorem exists_find? (ht : t.Numbers ds) (hs : s ∈ ds) : ∃ sym, t.find? s = some sym := by
  have hlt : ds.idxOf s < ds.length := List.idxOf_lt_length_iff.mpr hs
  have hword : ds.idxOf s < UInt32.size := Nat.lt_trans hlt ht.length_lt
  refine ⟨⟨.ofNat (ds.idxOf s)⟩, ht.find?_eq_some_iff_idxOf.mpr ⟨hs, ?_⟩⟩
  exact UInt32.toNat_ofNat_of_lt' hword

private theorem find?_eq_none (ht : t.Numbers ds) (hs : s ∉ ds) : t.find? s = none := by
  rw [Option.eq_none_iff_forall_ne_some]
  intro sym h
  exact hs (ht.find?_eq_some_iff_idxOf.mp h).1

theorem index_add (ht : t.Numbers ds) (s : String) : (t.add s).1.index = ds.length := by
  have hlt : t.strings.size < UInt32.size := by
    rw [← Array.length_toList, ht.strings_eq]
    exact ht.length_lt
  rw [← ht.size_eq]
  exact UInt32.toNat_ofNat_of_lt' hlt

/-! ### One call -/

/-- A string that is in the table keeps its symbol, and the table stays as it is. -/
theorem intern_of_mem (ht : t.Numbers ds) (hs : s ∈ ds) :
    ∃ sym, t.intern s = (sym, t) ∧ sym.index = ds.idxOf s := by
  obtain ⟨sym, h⟩ := ht.exists_find? hs
  refine ⟨sym, ?_, (ht.find?_eq_some_iff_idxOf.mp h).2⟩
  simp only [intern, h]

/-- A new string takes the next position. -/
theorem intern_of_notMem (ht : t.Numbers ds) (hs : s ∉ ds) : t.intern s = t.add s := by
  simp only [intern, ht.find?_eq_none hs]

/-- The symbols of the longer table are the old ones and the new one, each with its own string. -/
private theorem string?_add (ht : t.Numbers ds) (s s' : String) (sym : Symbol) :
    (t.add s).2.string? sym = some s' ↔
      t.string? sym = some s' ∨ sym = (t.add s).1 ∧ s' = s := by
  have hadd : (t.add s).2.string? sym = (ds ++ [s])[sym.index]? := by
    rw [string?, ← Array.getElem?_toList, ← ht.strings_eq]
    simp [add]
  rw [hadd, ht.string?_eq, List.getElem?_append]
  have hsym : sym = (t.add s).1 ↔ sym.index = ds.length := by
    rw [← ht.index_add s]
    exact ⟨congrArg _, fun h => Symbol.index_injective h⟩
  rw [hsym]
  split
  · next hlt => simp [Nat.ne_of_lt hlt]
  · next hge =>
    have hnone : ds[sym.index]? = none := List.getElem?_eq_none (Nat.le_of_not_lt hge)
    rw [hnone, List.getElem?_singleton]
    split
    · next h0 => simp [eq_comm (a := s), show sym.index = ds.length by omega]
    · next h0 => simp [show sym.index ≠ ds.length by omega]

/-- Numbering a new string keeps the invariant: the new symbol joins the bucket of its string. -/
private theorem add (ht : t.Numbers ds) (hs : s ∉ ds) (hlt : ds.length + 1 < wordSize) :
    (t.add s).2.Numbers (ds ++ [s]) where
  strings_eq := by simp [NameTable.add, ht.strings_eq]
  nodup := by simpa [List.nodup_append, ht.nodup] using fun a ha (h : a = s) => hs (h ▸ ha)
  length_lt := by simpa using hlt
  mem_bucket h sym := by
    have hhash : (t.add s).2.hash = t.hash := rfl
    rw [bucket_add, List.mem_append, ht.mem_bucket]
    simp only [ht.string?_add, hhash]
    constructor
    · rintro (⟨s', h'⟩ | h')
      · exact ⟨s', .inl h'.1, h'.2⟩
      · split at h'
        · next hh => exact ⟨s, .inr ⟨List.mem_singleton.mp h', rfl⟩, hh⟩
        · simp at h'
    · rintro ⟨s', h' | ⟨rfl, rfl⟩, hh⟩
      · exact .inl ⟨s', h', hh⟩
      · exact .inr (by simp [hh])

/-- One call: the string is appended if it is new, and its position is the answer. -/
theorem intern (ht : t.Numbers ss.eraseDups) (s : String)
    (hlt : (ss ++ [s]).eraseDups.length < wordSize) :
    (t.intern s).2.Numbers (ss ++ [s]).eraseDups ∧
      (t.intern s).1.index = (ss ++ [s]).eraseDups.idxOf s := by
  rw [eraseDups_concat] at hlt ⊢
  split at hlt
  · next hs =>
    obtain ⟨sym, h, hi⟩ := ht.intern_of_mem (List.mem_eraseDups.mpr hs)
    rw [if_pos hs, h]
    exact ⟨ht, hi⟩
  · next hs =>
    have hds : s ∉ ss.eraseDups := fun h => hs (List.mem_eraseDups.mp h)
    rw [if_neg hs, ht.intern_of_notMem hds]
    refine ⟨ht.add hds (by simpa using hlt), ?_⟩
    rw [ht.index_add, List.idxOf_append_of_notMem hds]
    simp

/-! ### Runs of calls -/

/-- A run of calls: the distinct strings so far are numbered, and every call has answered with the
position of its string among all of them. -/
theorem internAll {more : List String} (ht : t.Numbers ss.eraseDups)
    (hlt : (ss ++ more).eraseDups.length < wordSize) :
    (t.internAll more).2.Numbers (ss ++ more).eraseDups ∧
      (t.internAll more).1.map Symbol.index =
        more.map fun s => (ss ++ more).eraseDups.idxOf s := by
  induction more generalizing t ss with
  | nil => exact ⟨by simpa [NameTable.internAll] using ht, rfl⟩
  | cons s more ih =>
    rw [List.append_cons] at hlt ⊢
    have hpre : (ss ++ [s]).eraseDups <+: (ss ++ [s] ++ more).eraseDups :=
      eraseDups_prefix_append _ _
    obtain ⟨ht', hi⟩ := ht.intern s (Nat.lt_of_le_of_lt hpre.length_le hlt)
    obtain ⟨hmore, hsyms⟩ := ih ht' hlt
    refine ⟨hmore, ?_⟩
    simp only [NameTable.internAll, List.map_cons, hsyms, hi]
    -- the position among the strings so far is the position among all of them
    obtain ⟨rest, hrest⟩ := hpre
    rw [← hrest, List.idxOf_append_of_mem (List.mem_eraseDups.mpr (by simp))]

end Numbers

/-- What a symbol stands for never changes. -/
private theorem string?_intern (h : t.string? sym = some s) (s' : String) :
    (t.intern s').2.string? sym = some s := by
  unfold intern
  split
  · exact h
  · obtain ⟨hi, h⟩ := Array.getElem?_eq_some_iff.mp h
    simp [string?, add, Array.getElem?_push_lt hi, h]

theorem string?_internAll (h : t.string? sym = some s) (more : List String) :
    (t.internAll more).2.string? sym = some s := by
  induction more generalizing t with
  | nil => exact h
  | cons s' more ih => exact ih (string?_intern h s')

/-- A run that starts with a new table. -/
theorem numbers_internAll (hash : String → UInt64) (hlt : ss.eraseDups.length < wordSize) :
    (internAll { hash } ss).2.Numbers ss.eraseDups ∧
      (internAll { hash } ss).1.map Symbol.index = ss.map fun s => ss.eraseDups.idxOf s := by
  have hnil : Numbers { hash } ([] : List String).eraseDups := numbers_nil hash
  exact hnil.internAll hlt

/-- The symbols of a run resolve to the strings that were given. -/
private theorem mapM_resolve {syms : List Symbol} (ht : t.Numbers ds) (hss : ∀ s ∈ ss, s ∈ ds)
    (hsyms : syms.map Symbol.index = ss.map fun s => ds.idxOf s) (more : List String) :
    syms.mapM (t.internAll more).2.resolve = .ok ss := by
  induction ss generalizing syms with
  | nil =>
    rw [List.map_eq_nil_iff.mp hsyms]
    rfl
  | cons s ss ih =>
    obtain ⟨sym, syms, rfl, hi, hrest⟩ := List.map_eq_cons_iff.mp hsyms
    have hs : t.string? sym = some s := ht.string?_eq_some_iff.mpr ⟨hss s (by simp), hi⟩
    have hok : (t.internAll more).2.resolve sym = .ok s :=
      resolve_eq_ok_iff.mpr (string?_internAll hs more)
    have hmap := ih (fun s' h => hss s' (by simp [h])) hrest
    simp [List.mapM_cons, hok, hmap, bind, Except.bind, pure, Except.pure]

/-! ### Symbols and strings -/

/-- After any run of calls the table is a bijection between the distinct strings of the run and the
numbers below its size, and neither the symbols nor the strings nor what is found depend on the
hash function. -/
theorem internAll_numbers_first_occurrences {hash : String → UInt64} {ss : List String}
    {syms : List Symbol} {t : NameTable} (hrun : internAll { hash } ss = (syms, t))
    (hlt : ss.eraseDups.length < wordSize) :
    -- the strings are the distinct arguments, in the order of their first occurrence
    t.strings.toList = ss.eraseDups ∧ t.strings.toList.Nodup ∧
    -- every call answered with the position of its string, and would do so again
    syms.map Symbol.index = ss.map (fun s => ss.eraseDups.idxOf s) ∧
    (∀ s ∈ ss, ∃ sym, t.intern s = (sym, t) ∧ sym.index = ss.eraseDups.idxOf s) ∧
    (∀ s sym, t.find? s = some sym ↔ s ∈ ss ∧ sym.index = ss.eraseDups.idxOf s) ∧
    -- resolving undoes interning, also after further calls, and interning undoes resolving
    (∀ more, syms.mapM (t.internAll more).2.resolve = .ok ss) ∧
    (∀ sym, sym.index < t.size → ∃ s, t.resolve sym = .ok s ∧ t.intern s = (sym, t)) ∧
    (∀ sym, t.resolve sym = .error .invalidSymbol ↔ t.size ≤ sym.index) ∧
    -- another hash function gives the same answers
    ∀ hash' : String → UInt64, ∃ t', internAll { hash := hash' } ss = (syms, t') ∧
      t'.strings = t.strings ∧ ∀ s, t'.find? s = t.find? s := by
  obtain ⟨ht, hsyms⟩ := numbers_internAll hash hlt
  rw [hrun] at ht hsyms
  refine ⟨ht.strings_eq, ht.strings_eq ▸ ht.nodup, hsyms, ?_, ?_, ?_, ?_, ?_, ?_⟩
  · intro s hs
    exact ht.intern_of_mem (List.mem_eraseDups.mpr hs)
  · intro s sym
    rw [ht.find?_eq_some_iff_idxOf, List.mem_eraseDups]
  · exact mapM_resolve ht (fun s => List.mem_eraseDups.mpr) hsyms
  · intro sym hsym
    have hs : t.string? sym = some t.strings[sym.index] := Array.getElem?_eq_getElem hsym
    refine ⟨_, resolve_eq_ok_iff.mpr hs, ?_⟩
    simp only [intern, ht.find?_eq_some_iff.mpr hs]
  · intro sym
    exact resolve_eq_error_iff
  · intro hash'
    obtain ⟨ht', hsyms'⟩ := numbers_internAll hash' hlt
    have hsame : (internAll { hash := hash' } ss).1 = syms :=
      List.map_injective_iff.mpr Symbol.index_injective (hsyms'.trans hsyms.symm)
    refine ⟨(internAll { hash := hash' } ss).2, Prod.ext hsame rfl, ?_, ?_⟩
    · rw [← Array.toList_inj, ht.strings_eq, ht'.strings_eq]
    · intro s
      ext sym
      rw [ht.find?_eq_some_iff_idxOf, ht'.find?_eq_some_iff_idxOf]

/-- Five calls on a table in which all strings collide, and what a table that hashes answers. -/
theorem internAll_colliding_names :
    let calls := ["x", "y", "x", "", "y"]
    let run := internAll { hash := fun _ => 0 } calls
    calls.eraseDups.length < wordSize ∧ run.2.strings.toList = ["x", "y", ""] ∧
      run.1.map Symbol.index = [0, 1, 0, 2, 1] ∧ run.1.mapM run.2.resolve = .ok calls ∧
      (internAll {} calls).1 = run.1 := by
  intro calls run
  have hlt : calls.eraseDups.length < wordSize := by decide
  have hrun : internAll { hash := fun _ => 0 } calls = (run.1, run.2) := rfl
  obtain ⟨hstrings, -, hsyms, -, -, hresolve, -, -, hhash⟩ :=
    internAll_numbers_first_occurrences hrun hlt
  obtain ⟨t', ht', -⟩ := hhash fun s => s.hash
  exact ⟨hlt, hstrings, hsyms, hresolve [], by rw [ht']⟩

end NameTable

end GoTree
