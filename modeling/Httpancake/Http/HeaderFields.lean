import Httpancake.Http.WellFormed

/-! # Header fields

`ExtractsFields`: folding `parseHeader` over header lines gives the map from lower-case names to the
values stated first. The parser cuts the value at a fixed distance behind the colon, so it does this
for lines with exactly one space there; `extracts_fields_iff` is the exact condition. -/

namespace Httpancake

open Bytes

/-- The lower-case name and the value that a line states. -/
def fieldOf (l : Bytes) : Option (Bytes × Bytes) :=
  (cut COLON l).map fun p => (p.1.map toLower, p.2.dropWhile (· == SP))

/-- The lines parsed one after the other. -/
def parseHeaderLines (m : HeaderMap) (ls : List Bytes) : Option HeaderMap :=
  ls.foldlM (fun m l => parseHeader l m) m

/-- The length that `parseHeader` passes to `substr` for the value. -/
def valueLength (key : Bytes) : Nat := sizeSub (sizeSub (key.map toLower).length key.length) 1

/-- No line throws, the length of a value covers the rest of its line, and the map has for each name
the value stated first. -/
def ExtractsFields (ls : List Bytes) : Prop :=
  (∃ m, parseHeaderLines [] ls = some m ∧
    ∀ name, m.lookup name = (ls.filterMap fieldOf).lookup name) ∧
  ∀ l ∈ ls, ∀ key val, cut COLON l = some (key, val) → val.length ≤ valueLength key

/-- Behind the first colon of a line there is something, and it is one space and no second one
unless an earlier line has the same name. -/
def SpacedFields : (seen : List Bytes) → List Bytes → Prop
  | _, [] => True
  | seen, l :: ls =>
    match cut COLON l with
    | none => SpacedFields seen ls
    | some (key, val) =>
      val ≠ [] ∧ (key.map toLower ∈ seen ∨ val.head? = some SP ∧ val.tail.head? ≠ some SP) ∧
        SpacedFields (key.map toLower :: seen) ls

instance decidableSpacedFields : (seen ls : List Bytes) → Decidable (SpacedFields seen ls)
  | _, [] => isTrue trivial
  | seen, l :: ls => by
    have := fun seen => decidableSpacedFields seen ls
    unfold SpacedFields
    cases cut COLON l <;> exact inferInstance

variable {m m' : HeaderMap} {l : Bytes} {ls : List Bytes} {name v : Bytes}

/-! ## One line -/

theorem dropWhile_eq_tail_iff {c : UInt8} {val : Bytes} :
    (c :: val).dropWhile (· == SP) = val ↔ c = SP ∧ val.head? ≠ some SP := by
  by_cases hc : c = SP
  · subst hc
    cases val with
    | nil => simp
    | cons d val =>
      by_cases hd : d = SP
      · subst hd
        have hlen := (List.dropWhile_suffix (l := val) (· == SP)).length_le
        refine iff_of_false (fun h => ?_) (by simp)
        have := congrArg List.length h
        simp only [beq_self_eq_true, List.dropWhile_cons_of_pos, List.length_cons] at this
        omega
      · simp [hd]
  · refine iff_of_false (fun h => ?_) fun h => hc h.1
    have := congrArg List.length h
    simp [hc] at this

theorem parseHeader_of_cut_none (h : cut COLON l = none) : parseHeader l m = some m := by
  rw [parseHeader, findByte_zero_eq_none_iff.mpr (cut_eq_none_iff.mp h)]

theorem parseHeader_of_cut_nil {key : Bytes} (h : cut COLON l = some (key, [])) :
    parseHeader l m = none :=
  parseHeader_eq_none_iff.mpr (loneFinalColon_iff.mpr (by rw [h]; rfl))

theorem parseHeader_of_cut_cons {key val : Bytes} {c : UInt8}
    (h : cut COLON l = some (key, c :: val)) (hlen : l.length ≤ npos) :
    parseHeader l m = some (m.insert (key.map toLower) val) := by
  obtain ⟨rfl, hkey⟩ := cut_eq_some_iff.mp h
  rw [parseHeader_of_value hkey, List.take_of_length_le]
  simp only [List.length_append, List.length_cons] at hlen
  omega

theorem length_le_valueLength {key val : Bytes} (h : cut COLON l = some (key, val))
    (hlen : l.length ≤ npos) : val.length ≤ valueLength key := by
  have hmax : valueLength key = npos := by simp [valueLength, sizeSub, npos]
  obtain ⟨rfl, -⟩ := cut_eq_some_iff.mp h
  simp only [List.length_append, List.length_cons] at hlen
  omega

/-- An entry of the map stays as it is. -/
theorem parseHeader_keeps (h : parseHeader l m = some m') (hv : m.lookup name = some v) :
    m'.lookup name = some v := by
  unfold parseHeader at h
  split at h
  · cases h
    exact hv
  · simp only [Option.bind_eq_bind, Option.bind_eq_some_iff] at h
    obtain ⟨key, -, val, -, heq⟩ := h
    cases heq
    rw [HeaderMap.lookup_insert, hv, Option.some_or]

/-! ## All lines -/

theorem spacedFields_cons {seen : List Bytes} {key val : Bytes} {c : UInt8}
    (h : cut COLON l = some (key, c :: val)) :
    SpacedFields seen (l :: ls) ↔
      (key.map toLower ∈ seen ∨ (c :: val).dropWhile (· == SP) = val) ∧
        SpacedFields (key.map toLower :: seen) ls := by
  rw [SpacedFields, h, dropWhile_eq_tail_iff]
  simp

theorem parseHeaderLines_cons :
    parseHeaderLines m (l :: ls) = (parseHeader l m).bind (parseHeaderLines · ls) := rfl

theorem parseHeaderLines_keeps (h : parseHeaderLines m ls = some m')
    (hv : m.lookup name = some v) : m'.lookup name = some v := by
  induction ls generalizing m with
  | nil =>
    cases h
    exact hv
  | cons l ls ih =>
    rw [parseHeaderLines_cons, Option.bind_eq_some_iff] at h
    obtain ⟨m₁, hone, hrest⟩ := h
    exact ih hrest (parseHeader_keeps hone hv)

/-- A value that is hidden or right may as well stand in front of the fields behind it. -/
theorem lookup_insert_or {k w : Bytes} {fields : List (Bytes × Bytes)}
    (hk : (m.lookup k).isSome ∨ w = v) (name : Bytes) :
    ((m.insert k v).lookup name).or (fields.lookup name) =
      (m.lookup name).or (((k, w) :: fields).lookup name) := by
  rw [HeaderMap.lookup_insert, Option.or_assoc, List.lookup_cons]
  by_cases hname : name = k
  · subst hname
    rcases hk with hk | hk
    · obtain ⟨u, hu⟩ := Option.isSome_iff_exists.mp hk
      simp [hu]
    · simp [hk]
  · simp [beq_false_of_ne hname, Ne.symm hname]

theorem parseHeaderLines_iff {seen : List Bytes} (hlen : ∀ l ∈ ls, l.length ≤ npos)
    (hseen : ∀ name, name ∈ seen ↔ (m.lookup name).isSome) :
    (∃ m', parseHeaderLines m ls = some m' ∧
      ∀ name, m'.lookup name = (m.lookup name).or ((ls.filterMap fieldOf).lookup name)) ↔
      SpacedFields seen ls := by
  induction ls generalizing m seen with
  | nil => exact iff_of_true ⟨m, rfl, by simp⟩ trivial
  | cons l ls ih =>
    obtain ⟨hl, hls⟩ := List.forall_mem_cons.mp hlen
    rw [parseHeaderLines_cons]
    cases hcut : cut COLON l with
    | none =>
      have hfield : fieldOf l = none := by rw [fieldOf, hcut]; rfl
      rw [SpacedFields, hcut, parseHeader_of_cut_none hcut, List.filterMap_cons_none hfield]
      exact ih hls hseen
    | some p =>
      obtain ⟨key, _ | ⟨c, val⟩⟩ := p
      · rw [SpacedFields, hcut, parseHeader_of_cut_nil hcut]
        exact iff_of_false (by simp) fun h => h.1 rfl
      · set k := key.map toLower
        set w := (c :: val).dropWhile (· == SP)
        have hfield : fieldOf l = some (k, w) := by rw [fieldOf, hcut]; rfl
        have hseen' : ∀ name, name ∈ k :: seen ↔ ((m.insert k val).lookup name).isSome := by
          intro name
          rw [HeaderMap.lookup_insert, List.mem_cons, hseen, Option.isSome_or]
          by_cases hname : name = k
          · simp [hname]
          · simp [hname, Ne.symm hname]
        rw [spacedFields_cons hcut, parseHeader_of_cut_cons hcut hl,
          List.filterMap_cons_some hfield, Option.bind_some, hseen, ← ih hls hseen']
        constructor
        · rintro ⟨m', hparse, hm'⟩
          have hk : (m.lookup k).isSome ∨ w = val := by
            cases hm : m.lookup k with
            | some u => exact .inl rfl
            | none =>
              -- the first value for a name is the one that the map keeps
              have hval : m'.lookup k = some val := parseHeaderLines_keeps hparse (by
                rw [HeaderMap.lookup_insert, hm, if_pos rfl, Option.none_or])
              rw [hm', hm, Option.none_or, List.lookup_cons_self] at hval
              exact .inr (Option.some.inj hval)
          exact ⟨hk, m', hparse, fun name => (hm' name).trans (lookup_insert_or hk name).symm⟩
        · rintro ⟨hk, m', hparse, hm'⟩
          exact ⟨m', hparse, fun name => (hm' name).trans (lookup_insert_or hk name)⟩

/-- **When the fields are extracted**, for lines whose size is a `size_t`. -/
theorem extracts_fields_iff (hlen : ∀ l ∈ ls, l.length ≤ npos) :
    ExtractsFields ls ↔ SpacedFields [] ls := by
  have hfold := @parseHeaderLines_iff [] ls [] hlen (by simp)
  simp only [List.lookup_nil, Option.none_or] at hfold
  rw [ExtractsFields, hfold]
  exact and_iff_left fun l hl key val hcut => length_le_valueLength hcut (hlen l hl)

theorem extracts_fields_repeated :
    ExtractsFields [ascii "Host: h", ascii "no field", ascii "X-Empty: ", ascii "host:k"] :=
  (extracts_fields_iff (by decide)).mpr (by decide)

/-- No value, a value without a space, and a value behind two spaces. -/
theorem extracts_fields_fails :
    ¬ ExtractsFields [ascii "Host:"] ∧ ¬ ExtractsFields [ascii "Host:h"] ∧
      ¬ ExtractsFields [ascii "Host:  h"] := by
  refine ⟨?_, ?_, ?_⟩
  · rintro ⟨⟨m, hm, -⟩, -⟩
    have hnone : parseHeaderLines [] [ascii "Host:"] = none := by decide
    rw [hnone] at hm
    cases hm
  · rintro ⟨⟨m, hm, hlookup⟩, -⟩
    have hmap : parseHeaderLines [] [ascii "Host:h"] = some [(ascii "host", [])] := by decide
    obtain rfl := Option.some.inj (hmap.symm.trans hm)
    exact absurd (hlookup (ascii "host")) (by decide)
  · rintro ⟨⟨m, hm, hlookup⟩, -⟩
    have hmap : parseHeaderLines [] [ascii "Host:  h"] = some [(ascii "host", ascii " h")] := by
      decide
    obtain rfl := Option.some.inj (hmap.symm.trans hm)
    exact absurd (hlookup (ascii "host")) (by decide)

end Httpancake
