import ReactNativeIroh.Ts.Json

/-!
# Reading JSON texts back

A text *writes* a value when the reader takes the value off its front, whatever follows.
Strings, arrays and objects are written by the texts of their parts, however the characters of
a string are escaped.
-/

namespace Iroh.Json

open JsString

/-! ## Strings -/

/-- The reader takes this piece of a literal for these code units, whatever follows. -/
def Reads (piece s : JsString) : Prop :=
  ∀ rest, readString (piece ++ rest) = (readString rest).map fun p => (s ++ p.1, p.2)

theorem Reads.nil : Reads [] [] := by
  intro rest
  rw [List.nil_append]
  exact Option.map_id.symm ▸ rfl

theorem Reads.append {p q s t : JsString} (hp : Reads p s) (hq : Reads q t) :
    Reads (p ++ q) (s ++ t) := by
  intro rest
  rw [List.append_assoc, hp, hq, Option.map_map]
  refine congrFun (congrArg Option.map (funext fun r => ?_)) _
  simp only [Function.comp_apply, List.append_assoc]

/-- A code unit that stands for itself. -/
theorem Reads.single {u : UInt16} (hq : u ≠ unit '"') (hb : u ≠ unit '\\') (hc : ¬ u < 0x20) :
    Reads [u] [u] := by
  intro rest
  rw [List.singleton_append]
  conv_lhs => unfold readString
  rw [if_neg hq, if_neg hb, if_neg hc]
  rfl

theorem Reads.escape {e v : UInt16} (hu : e ≠ unit 'u') (hv : escaped e = some v) :
    Reads [unit '\\', e] [v] := by
  intro rest
  have hquote : unit '\\' ≠ unit '"' := by decide
  rw [List.cons_append, List.singleton_append]
  conv_lhs => unfold readString
  simp only [if_neg hquote, if_true, if_neg hu, hv, Option.bind_some, List.singleton_append]

theorem Reads.hex {a b c d v : UInt16} (hv : hexUnit a b c d = some v) :
    Reads [unit '\\', unit 'u', a, b, c, d] [v] := by
  intro rest
  have hquote : unit '\\' ≠ unit '"' := by decide
  simp only [List.cons_append, List.nil_append]
  conv_lhs => unfold readString
  simp only [if_neg hquote, if_true, hv, Option.bind_some]

/-- A literal that is read as a string. -/
theorem Reads.string {q s : JsString} (h : Reads q s) (rest : JsString) :
    readString (q ++ unit '"' :: rest) = some (s, rest) := by
  have hend : readString (unit '"' :: rest) = some ([], rest) := by
    conv_lhs => unfold readString
    rw [if_pos rfl]
  rw [h, hend, Option.map_some, List.append_nil]

/-! ## The literals of `JSON.stringify` -/

theorem hexValue_hexDigit : ∀ n < 16, hexValue (unit (Manifest.hexDigit n)) = some n := by
  decide

theorem single_hexDigit : ∀ n < 16, units (Manifest.hexDigit n) = [unit (Manifest.hexDigit n)] := by
  decide

/-- The four digits of a code unit. -/
theorem hexUnit_digits (u : UInt16) :
    hexUnit (unit (Manifest.hexDigit (u.toNat / 0x1000)))
      (unit (Manifest.hexDigit (u.toNat / 0x100 % 0x10)))
      (unit (Manifest.hexDigit (u.toNat / 0x10 % 0x10)))
      (unit (Manifest.hexDigit (u.toNat % 0x10))) = some u := by
  have hlt := u.toNat_lt
  have hsum : ((u.toNat / 0x1000 * 0x10 + u.toNat / 0x100 % 0x10) * 0x10 +
      u.toNat / 0x10 % 0x10) * 0x10 + u.toNat % 0x10 = u.toNat := by omega
  simp only [hexUnit, hexValue_hexDigit _ (by omega : u.toNat / 0x1000 < 16),
    hexValue_hexDigit _ (by omega : u.toNat / 0x100 % 0x10 < 16),
    hexValue_hexDigit _ (by omega : u.toNat / 0x10 % 0x10 < 16),
    hexValue_hexDigit _ (by omega : u.toNat % 0x10 < 16), Option.pure_def, Option.bind_eq_bind,
    Option.bind_some, hsum, UInt16.ofNat_toNat]

/-- `\uXXXX` is read as its code unit. -/
theorem reads_escapeUnit (u : UInt16) : Reads ((Manifest.escapeUnit u).flatMap units) [u] := by
  have hlt := u.toNat_lt
  have hunits : (Manifest.escapeUnit u).flatMap units =
      [unit '\\', unit 'u', unit (Manifest.hexDigit (u.toNat / 0x1000)),
        unit (Manifest.hexDigit (u.toNat / 0x100 % 0x10)),
        unit (Manifest.hexDigit (u.toNat / 0x10 % 0x10)),
        unit (Manifest.hexDigit (u.toNat % 0x10))] := by
    simp only [Manifest.escapeUnit, List.flatMap_cons, List.flatMap_nil,
      single_hexDigit _ (by omega : u.toNat / 0x1000 < 16),
      single_hexDigit _ (by omega : u.toNat / 0x100 % 0x10 < 16),
      single_hexDigit _ (by omega : u.toNat / 0x10 % 0x10 < 16),
      single_hexDigit _ (by omega : u.toNat % 0x10 < 16)]
    rfl
  rw [hunits]
  exact .hex (hexUnit_digits u)

/-- A character that stands for a code unit has that code unit. -/
theorem units_ofNat {u : UInt16} (hu : isLead u = false) (ht : isTrail u = false) :
    units (Char.ofNat u.toNat) = [u] := by
  have hlt := u.toNat_lt
  have hchar := lone_toNat hu ht
  rw [units, if_pos (by omega), hchar, UInt16.ofNat_toNat]

theorem units_pair {u v : UInt16} (hu : isLead u = true) (hv : isTrail v = true) :
    units (pair u v) = [u, v] := by
  have hchar := pair_toNat hu hv
  simp only [isLead, isTrail, decide_eq_true_eq] at hu hv
  have hlead : 0xD800 + ((pair u v).toNat - 0x10000) / 0x400 = u.toNat := by omega
  have htrail : 0xDC00 + ((pair u v).toNat - 0x10000) % 0x400 = v.toNat := by omega
  rw [units, if_neg (by omega), hlead, htrail, UInt16.ofNat_toNat, UInt16.ofNat_toNat]

theorem not_lt_of_toNat {u : UInt16} (h : ¬ u.toNat < 0x20) : ¬ u < 0x20 := by
  rw [UInt16.lt_iff_toNat_lt]
  exact h

/-- A code unit that is no surrogate is read back, escaped or not. -/
theorem reads_quoteUnit {u : UInt16} (hu : isLead u = false) (ht : isTrail u = false) :
    Reads ((Manifest.quoteUnit u).flatMap units) [u] := by
  unfold Manifest.quoteUnit
  by_cases h1 : u = 0x22
  · subst h1
    exact .escape (by decide) (by decide)
  by_cases h2 : u = 0x5C
  · subst h2
    exact .escape (by decide) (by decide)
  by_cases h3 : u = 0x08
  · subst h3
    exact .escape (by decide) (by decide)
  by_cases h4 : u = 0x0C
  · subst h4
    exact .escape (by decide) (by decide)
  by_cases h5 : u = 0x0A
  · subst h5
    exact .escape (by decide) (by decide)
  by_cases h6 : u = 0x0D
  · subst h6
    exact .escape (by decide) (by decide)
  by_cases h7 : u = 0x09
  · subst h7
    exact .escape (by decide) (by decide)
  rw [if_neg h1, if_neg h2, if_neg h3, if_neg h4, if_neg h5, if_neg h6, if_neg h7]
  split
  · exact reads_escapeUnit u
  · next hc =>
      rw [List.flatMap_singleton, units_ofNat hu ht]
      exact .single h1 h2 (not_lt_of_toNat hc)

/-- A surrogate in a pair stands for itself. -/
theorem reads_surrogate {u : UInt16} (h : 0xD800 ≤ u.toNat) : Reads [u] [u] := by
  refine .single ?_ ?_ (not_lt_of_toNat (by omega))
  · rintro rfl
    revert h
    decide
  · rintro rfl
    revert h
    decide

/-- A string is read back from its literal. -/
theorem reads_quoteUnits (s : JsString) : Reads ((Manifest.quoteUnits s).flatMap units) s := by
  fun_induction Manifest.quoteUnits s with
  | case1 => exact .nil
  | case2 u hu => exact reads_escapeUnit u
  | case3 u hu v rest hv ih =>
      rw [List.flatMap_cons, units_pair hu hv]
      simp only [isLead, isTrail, decide_eq_true_eq] at hu hv
      have hpair := (reads_surrogate hu.1).append (reads_surrogate (by omega : 0xD800 ≤ v.toNat))
      exact hpair.append ih
  | case4 u hu v rest hv ih =>
      rw [List.flatMap_append]
      exact (reads_escapeUnit u).append ih
  | case5 u rest hu ht ih =>
      rw [List.flatMap_append]
      exact (reads_escapeUnit u).append ih
  | case6 u rest hu ht ih =>
      rw [List.flatMap_append]
      exact (reads_quoteUnit (by simpa using hu) (by simpa using ht)).append ih

/-! ## Values -/

/-- The reader takes the value off the front of the text, whatever follows. -/
structure Writes (text : JsString) (v : Json) : Prop where
  head : ∃ u rest, text = u :: rest ∧ isSpace u = false ∧ u ≠ unit ']'
  read : ∀ n, text.length ≤ n → ∀ rest, readValue n (text ++ rest) = some (v, rest)

theorem skipSpace_cons {u : UInt16} (h : isSpace u = false) (rest : JsString) :
    skipSpace (u :: rest) = u :: rest :=
  List.dropWhile_cons_of_neg (by simp [h])

theorem token_cons (c : Char) (rest : JsString) : token c (unit c :: rest) = some rest := if_pos rfl

theorem token_cons_of_ne {c : Char} {u : UInt16} (h : u ≠ unit c) (rest : JsString) :
    token c (u :: rest) = none := if_neg h

theorem Reads.writes {q s : JsString} (h : Reads q s) :
    Writes (unit '"' :: (q ++ [unit '"'])) (.str s) where
  head := ⟨unit '"', _, rfl, by decide, by decide⟩
  read n hn rest := by
    cases n with
    | zero => simp at hn
    | succ n =>
        rw [readValue, List.cons_append, skipSpace_cons (by decide)]
        simp only [if_true, List.append_assoc, List.singleton_append, h.string, Option.map_some]

theorem Writes.parse {text : JsString} {v : Json} (h : Writes text v) : parse text = some v := by
  have hread := h.read (text.length + 1) (Nat.le_succ _) []
  rw [List.append_nil] at hread
  rw [Json.parse, hread]
  rfl

/-! ## Arrays and objects -/

/-- The texts, with a comma between them. -/
def commas (texts : List JsString) : JsString := Separated.join (unit ',') texts

theorem commas_cons_cons (t t' : JsString) (texts : List JsString) :
    commas (t :: t' :: texts) = t ++ unit ',' :: commas (t' :: texts) :=
  Separated.join_cons_cons ..

/-- The first text is at the front. -/
theorem commas_front (u : UInt16) (text : JsString) (texts : List JsString) :
    ∃ more, commas ((u :: text) :: texts) = u :: more := by
  cases texts with
  | nil => exact ⟨text, by rw [commas, Separated.join_singleton]⟩
  | cons text' texts => exact ⟨_, commas_cons_cons (u :: text) text' texts⟩

theorem commas_append_singleton {texts : List JsString} (h : texts ≠ []) (t : JsString) :
    commas (texts ++ [t]) = commas texts ++ unit ',' :: t := by
  induction texts with
  | nil => exact absurd rfl h
  | cons first rest ih =>
      cases rest with
      | nil =>
          simp only [List.cons_append, List.nil_append, commas, Separated.join_cons_cons,
            Separated.join_singleton]
      | cons next rest =>
          have ih := ih (List.cons_ne_nil _ _)
          simp only [List.cons_append, commas_cons_cons] at ih ⊢
          rw [ih, List.append_assoc, List.cons_append]

/-- A reader takes items off the front of a text, with a comma after each but the last, and
then the bracket that ends them. -/
def ReadsList {α : Type*} (bracket : Char) (item : ℕ → JsString → Option (α × JsString))
    (list : ℕ → JsString → Option (List α × JsString)) : Prop :=
  ∀ n text v rest, item n text = some (v, rest) →
    (∀ more, rest = unit ',' :: more → list (n + 1) text =
      (list n more).map fun p => (v :: p.1, p.2)) ∧
    ∀ more, rest = unit bracket :: more → list (n + 1) text = some ([v], more)

/-- A text that goes on behind an item, with a comma or the bracket. -/
def EndsItem (bracket : Char) (rest : JsString) : Prop :=
  ∃ more, rest = unit ',' :: more ∨ rest = unit bracket :: more

/-- The reader takes the items of a list whose texts are joined by commas. -/
theorem ReadsList.items {α : Type*} {bracket : Char}
    {item : ℕ → JsString → Option (α × JsString)}
    {list : ℕ → JsString → Option (List α × JsString)} (hlist : ReadsList bracket item list)
    {part : JsString × α} {parts : List (JsString × α)}
    (h : ∀ p ∈ part :: parts, ∀ n, p.1.length ≤ n → ∀ rest, EndsItem bracket rest →
      item n (p.1 ++ rest) = some (p.2, rest))
    {n : ℕ} (hn : (commas ((part :: parts).map Prod.fst)).length < n) (rest : JsString) :
    list n (Json.commas ((part :: parts).map Prod.fst) ++ unit bracket :: rest) =
      some ((part :: parts).map Prod.snd, rest) := by
  induction parts generalizing part n with
  | nil =>
      have hpart := h part List.mem_cons_self
      simp only [List.map_cons, List.map_nil, Json.commas, Separated.join_singleton] at hn ⊢
      cases n with
      | zero => exact absurd hn (Nat.not_lt_zero _)
      | succ n =>
          have hread := hpart n (Nat.le_of_lt_succ hn) (unit bracket :: rest) ⟨rest, .inr rfl⟩
          exact (hlist n _ _ _ hread).2 rest rfl
  | cons next parts ih =>
      have hpart := h part List.mem_cons_self
      have hparts := fun p hp => h p (List.mem_cons_of_mem _ hp)
      simp only [List.map_cons, commas_cons_cons, List.length_append, List.length_cons] at hn ⊢
      cases n with
      | zero => exact absurd hn (Nat.not_lt_zero _)
      | succ n =>
          have hrest := ih hparts (n := n) (by simp only [List.map_cons]; omega)
          simp only [List.map_cons] at hrest
          rw [List.append_assoc, List.cons_append]
          refine ((hlist n _ _ _ (hpart n (by omega) _ ⟨_, .inl rfl⟩)).1 _ rfl).trans ?_
          rw [hrest]
          rfl

theorem readsList_elements : ReadsList ']' readValue readElements := by
  intro n text v rest hitem
  refine ⟨fun more hmore => ?_, fun more hmore => ?_⟩
  · subst hmore
    rw [readElements, hitem, Option.bind_some]
    simp only [skipSpace_cons (u := unit ',') (by decide), token_cons]
  · subst hmore
    rw [readElements, hitem, Option.bind_some]
    simp only [skipSpace_cons (u := unit ']') (by decide),
      token_cons_of_ne (c := ',') (u := unit ']') (by decide), token_cons, Option.map_some]

theorem readElements_commas {part : JsString × Json} {parts : List (JsString × Json)}
    (h : ∀ p ∈ part :: parts, Writes p.1 p.2) {n : ℕ}
    (hn : (commas ((part :: parts).map Prod.fst)).length < n) (rest : JsString) :
    readElements n (commas ((part :: parts).map Prod.fst) ++ unit ']' :: rest) =
      some ((part :: parts).map Prod.snd, rest) :=
  readsList_elements.items (fun p hp n hn rest _ => (h p hp).read n hn rest) hn rest

/-- An array is written by the texts of its elements. -/
theorem Writes.arr {parts : List (JsString × Json)} (h : ∀ p ∈ parts, Writes p.1 p.2) :
    Writes (unit '[' :: (commas (parts.map Prod.fst) ++ [unit ']'])) (.arr (parts.map Prod.snd))
    where
  head := ⟨unit '[', _, rfl, by decide, by decide⟩
  read n hn rest := by
    cases n with
    | zero => simp at hn
    | succ n =>
        rw [readValue, List.cons_append, skipSpace_cons (by decide)]
        have hquote : unit '[' ≠ unit '"' := by decide
        simp only [if_neg hquote, if_true, List.append_assoc, List.singleton_append]
        cases parts with
        | nil =>
            simp only [List.map_nil, commas, Separated.join_nil, List.nil_append,
              skipSpace_cons (u := unit ']') (by decide), token_cons]
        | cons part parts =>
            obtain ⟨u, tail, htext, hspace, hu⟩ := (h part List.mem_cons_self).head
            obtain ⟨more, hfront⟩ := commas_front u tail (parts.map Prod.fst)
            have hlength : (commas ((part :: parts).map Prod.fst)).length < n := by
              simp only [List.length_cons, List.length_append] at hn
              omega
            have hread := readElements_commas h hlength rest
            rw [← htext, ← List.map_cons] at hfront
            rw [hfront, List.cons_append] at hread ⊢
            simp only [skipSpace_cons hspace, token_cons_of_ne hu, hread, Option.map_some]

theorem Writes.items {α : Type} (items : List α) {text : α → JsString} {value : α → Json}
    (h : ∀ a, Writes (text a) (value a)) :
    Writes (unit '[' :: (commas (items.map text) ++ [unit ']'])) (.arr (items.map value)) := by
  have hparts : ∀ p ∈ items.map fun a => (text a, value a), Writes p.1 p.2 := by
    intro p hp
    obtain ⟨a, -, rfl⟩ := List.mem_map.mp hp
    exact h a
  have harr := Writes.arr hparts
  simpa only [List.map_map, Function.comp_def] using harr

/-- The text of a member of an object. -/
structure WritesMember (text : JsString) (m : JsString × Json) : Prop where
  read : ∃ q t, text = unit '"' :: (q ++ unit '"' :: unit ':' :: t) ∧ Reads q m.1 ∧ Writes t m.2

/-- The text of a member whose value is read where the member ends, as that of a number is. -/
structure WritesField (text : JsString) (m : JsString × Json) : Prop where
  read : ∃ q t, text = unit '"' :: (q ++ unit '"' :: unit ':' :: t) ∧ Reads q m.1 ∧
    ∀ n, t.length ≤ n → ∀ rest, EndsItem '}' rest → readValue n (t ++ rest) = some (m.2, rest)

theorem WritesMember.field {text : JsString} {m : JsString × Json} (h : WritesMember text m) :
    WritesField text m where
  read := by
    obtain ⟨q, t, htext, hq, ht⟩ := h.read
    exact ⟨q, t, htext, hq, fun n hn rest _ => ht.read n hn rest⟩

/-- A member, up to what follows its value. -/
def readMember (n : ℕ) (text : JsString) : Option ((JsString × Json) × JsString) :=
  ((token '"' (skipSpace text)).bind readString).bind fun (key, rest) =>
    ((token ':' (skipSpace rest)).bind (readValue n)).map fun (v, rest) => ((key, v), rest)

theorem WritesField.readMember {text : JsString} {m : JsString × Json} (h : WritesField text m)
    (n : ℕ) (hn : text.length ≤ n) (rest : JsString) (hrest : EndsItem '}' rest) :
    Json.readMember n (text ++ rest) = some (m, rest) := by
  obtain ⟨q, t, rfl, hq, ht⟩ := h.read
  simp only [List.length_cons, List.length_append] at hn
  have hvalue := ht n (by omega) rest hrest
  simp only [Json.readMember, List.cons_append, List.append_assoc,
    skipSpace_cons (u := unit '"') (by decide), token_cons, Option.bind_some, hq.string,
    skipSpace_cons (u := unit ':') (by decide), hvalue, Option.map_some]

/-- The reader of an object takes one member after the other. -/
theorem readMembers_succ (n : ℕ) (text : JsString) : readMembers (n + 1) text =
    (readMember n text).bind fun p =>
      match token ',' (skipSpace p.2) with
      | some rest => (readMembers n rest).map fun q => (p.1 :: q.1, q.2)
      | none => (token '}' (skipSpace p.2)).map fun rest => ([p.1], rest) := by
  rw [readMembers, readMember]
  cases (token '"' (skipSpace text)).bind readString with
  | none => rfl
  | some key =>
      simp only [Option.bind_some]
      cases (token ':' (skipSpace key.2)).bind (readValue n) with
      | none => rfl
      | some v => rfl

theorem readsList_members : ReadsList '}' readMember readMembers := by
  intro n text m rest hitem
  refine ⟨fun more hmore => ?_, fun more hmore => ?_⟩
  · subst hmore
    rw [readMembers_succ, hitem, Option.bind_some]
    simp only [skipSpace_cons (u := unit ',') (by decide), token_cons]
  · subst hmore
    rw [readMembers_succ, hitem, Option.bind_some]
    simp only [skipSpace_cons (u := unit '}') (by decide),
      token_cons_of_ne (c := ',') (u := unit '}') (by decide), token_cons, Option.map_some]

theorem readMembers_commas {part : JsString × JsString × Json}
    {parts : List (JsString × JsString × Json)}
    (h : ∀ p ∈ part :: parts, WritesField p.1 p.2) {n : ℕ}
    (hn : (commas ((part :: parts).map Prod.fst)).length < n) (rest : JsString) :
    readMembers n (commas ((part :: parts).map Prod.fst) ++ unit '}' :: rest) =
      some ((part :: parts).map Prod.snd, rest) :=
  readsList_members.items (fun p hp => (h p hp).readMember) hn rest

/-- An object is written by the texts of its members. -/
theorem Writes.fields {parts : List (JsString × JsString × Json)}
    (h : ∀ p ∈ parts, WritesField p.1 p.2) :
    Writes (unit '{' :: (commas (parts.map Prod.fst) ++ [unit '}'])) (.obj (parts.map Prod.snd))
    where
  head := ⟨unit '{', _, rfl, by decide, by decide⟩
  read n hn rest := by
    cases n with
    | zero => simp at hn
    | succ n =>
        rw [readValue, List.cons_append, skipSpace_cons (by decide)]
        have hquote : unit '{' ≠ unit '"' := by decide
        have hbracket : unit '{' ≠ unit '[' := by decide
        simp only [if_neg hquote, if_neg hbracket, if_true, List.append_assoc,
          List.singleton_append]
        cases parts with
        | nil =>
            simp only [List.map_nil, commas, Separated.join_nil, List.nil_append,
              skipSpace_cons (u := unit '}') (by decide), token_cons]
        | cons part parts =>
            obtain ⟨q, t, htext, -, -⟩ := (h part List.mem_cons_self).read
            obtain ⟨more, hfront⟩ := commas_front (unit '"') _ (parts.map Prod.fst)
            have hlength : (commas ((part :: parts).map Prod.fst)).length < n := by
              simp only [List.length_cons, List.length_append] at hn
              omega
            have hread := readMembers_commas h hlength rest
            rw [← htext, ← List.map_cons] at hfront
            rw [hfront, List.cons_append] at hread ⊢
            simp only [skipSpace_cons (u := unit '"') (by decide),
              token_cons_of_ne (c := '}') (u := unit '"') (by decide), hread, Option.map_some]

theorem Writes.obj {parts : List (JsString × JsString × Json)}
    (h : ∀ p ∈ parts, WritesMember p.1 p.2) :
    Writes (unit '{' :: (commas (parts.map Prod.fst) ++ [unit '}'])) (.obj (parts.map Prod.snd)) :=
  .fields fun p hp => (h p hp).field

/-! ## What `JSON.stringify` writes -/

mutual

/-- A value without numbers. -/
def Textual : Json → Prop
  | .null | .bool _ | .str _ => True
  | .num _ => False
  | .arr elements => TextualElements elements
  | .obj members => TextualMembers members

def TextualElements : List Json → Prop
  | [] => True
  | v :: rest => v.Textual ∧ TextualElements rest

def TextualMembers : List (JsString × Json) → Prop
  | [] => True
  | (_, v) :: rest => v.Textual ∧ TextualMembers rest

end

theorem keyword_append (word : String) (rest : JsString) :
    keyword word (ofText word ++ rest) = some rest := by
  rw [keyword, if_pos (List.prefix_append ..), List.drop_left]

theorem writes_keyword (word : String) {v : Json} {u : UInt16} {tail : JsString}
    (hword : ofText word = u :: tail) (hspace : isSpace u = false)
    (hu : u ≠ unit ']' ∧ u ≠ unit '"' ∧ u ≠ unit '[' ∧ u ≠ unit '{')
    (hread : ∀ rest, readScalar (ofText word ++ rest) = some (v, rest)) :
    Writes (ofText word) v where
  head := ⟨u, tail, hword, hspace, hu.1⟩
  read n hn rest := by
    have hscalar := hread rest
    rw [hword] at hn hscalar ⊢
    cases n with
    | zero => simp at hn
    | succ n =>
        rw [readValue, List.cons_append, skipSpace_cons hspace]
        simp only [if_neg hu.2.1, if_neg hu.2.2.1, if_neg hu.2.2.2]
        exact hscalar

theorem writes_null : Writes (ofText "null") .null := by
  refine writes_keyword "null" rfl (by decide) (by decide) fun rest => ?_
  rw [readScalar, keyword_append]

/-- A word that starts with another letter is another word. -/
theorem keyword_of_ne (word : String) {u u' : UInt16} {tail text : JsString}
    (hword : ofText word = u :: tail) (h : u ≠ u') : keyword word (u' :: text) = none := by
  rw [keyword, hword, if_neg]
  rw [List.cons_prefix_cons]
  exact fun hp => h hp.1

theorem writes_bool (b : Bool) : Writes (ofText (if b then "true" else "false")) (.bool b) := by
  cases b with
  | true =>
      refine writes_keyword "true" rfl (by decide) (by decide) fun rest => ?_
      have hnull : keyword "null" (ofText "true" ++ rest) = none :=
        keyword_of_ne "null" rfl (by decide)
      rw [readScalar, hnull, keyword_append]
  | false =>
      refine writes_keyword "false" rfl (by decide) (by decide) fun rest => ?_
      have hnull : keyword "null" (ofText "false" ++ rest) = none :=
        keyword_of_ne "null" rfl (by decide)
      have htrue : keyword "true" (ofText "false" ++ rest) = none :=
        keyword_of_ne "true" rfl (by decide)
      rw [readScalar, hnull, htrue, keyword_append]

/-- The code units that `write` gives. -/
def text (v : Json) : JsString := v.write.flatMap units

theorem stringify_eq_text (v : Json) : v.stringify = v.text := by
  rw [stringify, ofText, String.toList_ofList, text]

/-- The text of a literal. -/
def literal (s : JsString) : JsString :=
  unit '"' :: ((Manifest.quoteUnits s).flatMap units ++ [unit '"'])

theorem stringify_flatMap (s : JsString) :
    (Manifest.stringify s).toList.flatMap units = literal s := by
  simp only [Manifest.stringify, String.toList_ofList, List.flatMap_cons, List.flatMap_append,
    List.flatMap_nil, List.append_nil]
  rfl

theorem writes_str (s : JsString) : Writes (literal s) (.str s) := (reads_quoteUnits s).writes

theorem text_elements (elements : List Json) :
    (writeElements elements).flatMap units = commas (elements.map text) := by
  induction elements with
  | nil => rfl
  | cons v rest ih =>
      cases rest with
      | nil => simp only [writeElements, List.map_cons, List.map_nil, commas,
          Separated.join_singleton, text]
      | cons w rest =>
          rw [writeElements, List.flatMap_append, List.flatMap_cons, ih]
          simp only [List.map_cons, commas_cons_cons]
          rfl

/-- The text of a member. -/
def memberText (m : JsString × Json) : JsString := literal m.1 ++ unit ':' :: m.2.text

theorem text_members (members : List (JsString × Json)) :
    (writeMembers members).flatMap units = commas (members.map memberText) := by
  induction members with
  | nil => rfl
  | cons m rest ih =>
      obtain ⟨key, v⟩ := m
      cases rest with
      | nil =>
          rw [writeMembers, List.flatMap_append, stringify_flatMap]
          simp only [List.map_cons, List.map_nil, commas, Separated.join_singleton]
          rfl
      | cons m rest =>
          rw [writeMembers, List.flatMap_append, List.flatMap_append, stringify_flatMap,
            List.flatMap_cons, List.flatMap_cons, ih]
          simp only [List.map_cons, commas_cons_cons]
          rfl

theorem writesMember {m : JsString × Json} (h : Writes m.2.text m.2) :
    WritesMember (memberText m) m where
  read := by
    refine ⟨_, m.2.text, ?_, reads_quoteUnits m.1, h⟩
    simp only [memberText, literal, List.cons_append, List.append_assoc, List.nil_append]

mutual

/-- Every value without numbers is written by what `JSON.stringify` gives. -/
theorem writes_text : (v : Json) → v.Textual → Writes v.text v
  | .null, _ => writes_null
  | .bool b, _ => writes_bool b
  | .num _, h => h.elim
  | .str s, _ => by
      rw [text, write, stringify_flatMap]
      exact writes_str s
  | .arr elements, h => by
      have hparts : ∀ p ∈ elements.map fun v => (v.text, v), Writes p.1 p.2 := by
        intro p hp
        obtain ⟨v, hv, rfl⟩ := List.mem_map.mp hp
        exact writes_elements elements h v hv
      have harr := Writes.arr hparts
      simp only [List.map_map, Function.comp_def, List.map_id'] at harr
      rw [text, write, List.flatMap_append, List.flatMap_cons, text_elements]
      exact harr
  | .obj members, h => by
      have hparts : ∀ p ∈ members.map fun m => (memberText m, m), WritesMember p.1 p.2 := by
        intro p hp
        obtain ⟨m, hm, rfl⟩ := List.mem_map.mp hp
        exact writesMember (writes_members members h m hm)
      have hobj := Writes.obj hparts
      simp only [List.map_map, Function.comp_def, List.map_id'] at hobj
      rw [text, write, List.flatMap_append, List.flatMap_cons, text_members]
      exact hobj

theorem writes_elements : (elements : List Json) → TextualElements elements →
    ∀ v ∈ elements, Writes v.text v
  | [], _ => List.forall_mem_nil _
  | v :: rest, h => List.forall_mem_cons.mpr ⟨writes_text v h.1, writes_elements rest h.2⟩

theorem writes_members : (members : List (JsString × Json)) → TextualMembers members →
    ∀ m ∈ members, Writes m.2.text m.2
  | [], _ => List.forall_mem_nil _
  | (_, v) :: rest, h => List.forall_mem_cons.mpr ⟨writes_text v h.1, writes_members rest h.2⟩

end

/-- `JSON.parse` inverts `JSON.stringify`. -/
theorem parse_stringify {v : Json} (h : v.Textual) : parse v.stringify = some v := by
  rw [stringify_eq_text]
  exact (writes_text v h).parse

/-! ## No control characters -/

/-- A text without control characters. -/
def Printable (cs : List Char) : Prop := ∀ c ∈ cs, 0x20 ≤ c.toNat

theorem Printable.append {cs ds : List Char} (hc : Printable cs) (hd : Printable ds) :
    Printable (cs ++ ds) := List.forall_mem_append.mpr ⟨hc, hd⟩

theorem Printable.cons {c : Char} {cs : List Char} (hc : 0x20 ≤ c.toNat) (hcs : Printable cs) :
    Printable (c :: cs) := List.forall_mem_cons.mpr ⟨hc, hcs⟩

theorem Printable.nil : Printable [] := List.forall_mem_nil _

theorem printable_hexDigit : ∀ n < 16, 0x20 ≤ (Manifest.hexDigit n).toNat := by decide

theorem printable_escapeUnit (u : UInt16) : Printable (Manifest.escapeUnit u) := by
  have hlt := u.toNat_lt
  refine .cons (by decide) (.cons (by decide) (.cons ?_ (.cons ?_ (.cons ?_ (.cons ?_ .nil)))))
  · exact printable_hexDigit _ (by omega)
  · exact printable_hexDigit _ (by omega)
  · exact printable_hexDigit _ (by omega)
  · exact printable_hexDigit _ (by omega)

theorem printable_quoteUnit {u : UInt16} (hu : isLead u = false) (ht : isTrail u = false) :
    Printable (Manifest.quoteUnit u) := by
  have hshort {c d : Char} (hc : 0x20 ≤ c.toNat) (hd : 0x20 ≤ d.toNat) : Printable [c, d] :=
    .cons hc (.cons hd .nil)
  unfold Manifest.quoteUnit
  split
  · exact hshort (by decide) (by decide)
  split
  · exact hshort (by decide) (by decide)
  split
  · exact hshort (by decide) (by decide)
  split
  · exact hshort (by decide) (by decide)
  split
  · exact hshort (by decide) (by decide)
  split
  · exact hshort (by decide) (by decide)
  split
  · exact hshort (by decide) (by decide)
  split
  · exact printable_escapeUnit u
  · next hc =>
      refine .cons ?_ .nil
      rw [lone_toNat hu ht]
      omega

theorem printable_quoteUnits (s : JsString) : Printable (Manifest.quoteUnits s) := by
  fun_induction Manifest.quoteUnits s with
  | case1 => exact .nil
  | case2 u hu => exact printable_escapeUnit u
  | case3 u hu v rest hv ih =>
      refine .cons ?_ ih
      rw [pair_toNat hu hv]
      omega
  | case4 u hu v rest hv ih => exact (printable_escapeUnit u).append ih
  | case5 u rest hu ht ih => exact (printable_escapeUnit u).append ih
  | case6 u rest hu ht ih =>
      exact (printable_quoteUnit (by simpa using hu) (by simpa using ht)).append ih

theorem printable_literal (s : JsString) : Printable (Manifest.stringify s).toList := by
  rw [Manifest.stringify, String.toList_ofList]
  exact (Printable.cons (by decide) (printable_quoteUnits s)).append (.cons (by decide) .nil)

theorem printable_word (word : String)
    (h : (word.toList.all fun c => decide (0x20 ≤ c.toNat)) = true) : Printable word.toList := by
  intro c hc
  simpa using List.all_eq_true.mp h c hc

theorem printable_bool (b : Bool) : Printable (Json.bool b).write := by
  cases b
  · exact printable_word "false" rfl
  · exact printable_word "true" rfl

mutual

/-- `JSON.stringify` escapes every control character. -/
theorem printable_write : (v : Json) → v.Textual → Printable v.write
  | .null, _ => printable_word "null" rfl
  | .bool b, _ => printable_bool b
  | .num _, h => h.elim
  | .str s, _ => printable_literal s
  | .arr elements, h =>
      (Printable.cons (by decide) (printable_elements elements h)).append (.cons (by decide) .nil)
  | .obj members, h =>
      (Printable.cons (by decide) (printable_members members h)).append (.cons (by decide) .nil)

theorem printable_elements : (elements : List Json) → TextualElements elements →
    Printable (writeElements elements)
  | [], _ => .nil
  | [v], h => printable_write v h.1
  | v :: w :: rest, h =>
      (printable_write v h.1).append (.cons (by decide) (printable_elements (w :: rest) h.2))

theorem printable_members : (members : List (JsString × Json)) → TextualMembers members →
    Printable (writeMembers members)
  | [], _ => .nil
  | [(key, v)], h => (printable_literal key).append (.cons (by decide) (printable_write v h.1))
  | (key, v) :: m :: rest, h =>
      ((printable_literal key).append (.cons (by decide) (printable_write v h.1))).append
        (.cons (by decide) (printable_members (m :: rest) h.2))

end

/-- A text without control characters can be a line of a joined list. -/
theorem plain_stringify {v : Json} (h : v.Textual) : JoinedList.Plain v.stringify := by
  have hprintable := printable_write v h
  have hout {c : Char} (hs : Single c) (hc : c.toNat < 0x20) : unit c ∉ v.stringify := by
    intro hmem
    have := hprintable c (by simpa [stringify, mem_ofText hs] using hmem)
    omega
  refine ⟨?_, hout (by decide) (by decide), hout (by decide) (by decide), ?_⟩
  · obtain ⟨u, rest, htext, -, -⟩ := (writes_text v h).head
    rw [stringify_eq_text, htext]
    exact List.cons_ne_nil u rest
  · rw [WellFormed, stringify, toText_ofText]

/-! ## Decimal numbers -/

/-- A character that is no digit. -/
theorem ne_unit_of_isDigit {u : UInt16} {c : Char} (hu : isDigit u = true)
    (hc : isDigit (unit c) = false) : u ≠ unit c := by
  rintro rfl
  exact absurd (hu.symm.trans hc) Bool.noConfusion

/-- A literal of digits, without a leading zero. -/
structure Decimal (text : JsString) : Prop where
  nonempty : text ≠ []
  digits : ∀ u ∈ text, isDigit u = true
  leading : text.head? ≠ some (unit '0') ∨ text.length = 1

/-- A character that ends a number. -/
def EndsNumber (u : UInt16) : Prop :=
  isDigit u = false ∧ u ≠ unit '.' ∧ u ≠ unit 'e' ∧ u ≠ unit 'E'

theorem EndsItem.number {rest : JsString} (h : EndsItem '}' rest) :
    ∃ u more, rest = u :: more ∧ EndsNumber u := by
  obtain ⟨more, rfl | rfl⟩ := h
  · exact ⟨_, more, rfl, by unfold EndsNumber; decide⟩
  · exact ⟨_, more, rfl, by unfold EndsNumber; decide⟩

theorem Decimal.readNumber {text : JsString} (h : Decimal text) {v : UInt16} (hv : EndsNumber v)
    (rest : JsString) : readNumber (text ++ v :: rest) = some (text, v :: rest) := by
  obtain ⟨u, tail, rfl⟩ := List.exists_cons_of_ne_nil h.nonempty
  have hu := h.digits u List.mem_cons_self
  have htake : (u :: tail ++ v :: rest).takeWhile isDigit = u :: tail := by
    rw [List.takeWhile_append_of_pos h.digits, List.takeWhile_cons_of_neg (by simp [hv.1]),
      List.append_nil]
  have hdrop : (u :: tail ++ v :: rest).dropWhile isDigit = v :: rest := by
    rw [List.dropWhile_append_of_pos h.digits, List.dropWhile_cons_of_neg (by simp [hv.1])]
  have hminus : token '-' (u :: tail ++ v :: rest) = none :=
    token_cons_of_ne (ne_unit_of_isDigit hu (by decide)) _
  have hint : readInt (u :: tail ++ v :: rest) = some (u :: tail, v :: rest) := by
    rw [readInt, readDigits, htake, hdrop, if_neg (List.cons_ne_nil _ _), Option.filter_some,
      if_pos (by simpa using h.leading)]
  have hfraction : readFraction (v :: rest) = some ([], v :: rest) := by
    rw [readFraction, token_cons_of_ne hv.2.1]
  have hexponent : readExponent (v :: rest) = some ([], v :: rest) := by
    rw [readExponent.eq_def]
    exact if_neg (not_or.mpr hv.2.2)
  simp only [Json.readNumber, hminus, Option.getD_none, hint, hfraction, hexponent,
    Option.bind_eq_bind, Option.bind_some, Option.pure_def, Option.isSome_none, Bool.false_eq_true,
    if_false, List.nil_append, List.append_nil]

/-- A number is read where it ends. -/
theorem Decimal.readValue {text : JsString} (h : Decimal text) {v : UInt16} (hv : EndsNumber v)
    {n : ℕ} (hn : text.length ≤ n) (rest : JsString) :
    readValue n (text ++ v :: rest) = some (.num text, v :: rest) := by
  have hnumber := h.readNumber hv rest
  obtain ⟨u, tail, rfl⟩ := List.exists_cons_of_ne_nil h.nonempty
  have hne {c : Char} (hc : isDigit (unit c) = false) : u ≠ unit c :=
    ne_unit_of_isDigit (h.digits u List.mem_cons_self) hc
  have hspace : isSpace u = false := by
    simp only [isSpace, decide_eq_false_iff_not, not_or]
    exact ⟨hne (by decide), hne (by decide), hne (by decide), hne (by decide)⟩
  have hword (word : String) {c : Char} {more : JsString} (hc : ofText word = unit c :: more)
      (hd : isDigit (unit c) = false) : keyword word (u :: (tail ++ v :: rest)) = none :=
    keyword_of_ne word hc (hne hd).symm
  cases n with
  | zero => simp at hn
  | succ n =>
      rw [List.cons_append] at hnumber ⊢
      rw [Json.readValue, skipSpace_cons hspace]
      simp only [if_neg (hne (by decide : isDigit (unit '"') = false)),
        if_neg (hne (by decide : isDigit (unit '[') = false)),
        if_neg (hne (by decide : isDigit (unit '{') = false))]
      rw [readScalar, hword "null" rfl (by decide), hword "true" rfl (by decide),
        hword "false" rfl (by decide), hnumber]
      rfl

theorem head?_toDigits {n : ℕ} (hn : 0 < n) : (Nat.toDigits 10 n).head? ≠ some '0' := by
  induction n using Nat.strongRecOn with
  | ind n ih =>
      by_cases hlt : n < 10
      · have hdigit : ∀ m < 10, 0 < m → m.digitChar ≠ '0' := by decide
        rw [Nat.toDigits_of_lt_base hlt, List.head?_cons]
        exact fun he => hdigit n hlt hn (Option.some.inj he)
      · rw [Nat.toDigits_of_base_le (by decide) (by omega),
          List.head?_append_of_ne_nil _ Nat.toDigits_ne_nil]
        exact ih (n / 10) (by omega) (by omega)

theorem toNat_digit {c : Char} (h : c.isDigit = true) : 48 ≤ c.toNat ∧ c.toNat ≤ 57 := by
  simpa [Char.isDigit, UInt32.le_iff_toNat_le] using h

theorem single_digit {c : Char} (h : c.isDigit = true) : Single c := by
  have hrange := toNat_digit h
  unfold Single
  omega

theorem units_digit {c : Char} (h : c.isDigit = true) :
    units c = [unit c] ∧ isDigit (unit c) = true := by
  have hrange := toNat_digit h
  refine ⟨if_pos (by omega), ?_⟩
  have hnat := toNat_unit (single_digit h)
  have hzero : (unit '0').toNat = 48 := by decide
  have hnine : (unit '9').toNat = 57 := by decide
  simp only [isDigit, decide_eq_true_eq, UInt16.le_iff_toNat_le]
  omega

theorem ofText_digits {cs : List Char} (h : ∀ c ∈ cs, c.isDigit = true) :
    cs.flatMap units = cs.map unit := by
  induction cs with
  | nil => rfl
  | cons c cs ih =>
      rw [List.flatMap_cons, (units_digit (h c List.mem_cons_self)).1,
        ih fun d hd => h d (List.mem_cons_of_mem _ hd), List.singleton_append, List.map_cons]

/-- The digits of a number are its literal. -/
theorem decimal_toDigits (n : ℕ) : Decimal ((Nat.toDigits 10 n).flatMap units) := by
  have hdigits : ∀ c ∈ Nat.toDigits 10 n, c.isDigit = true := fun c hc =>
    Nat.isDigit_of_mem_toDigits (by decide) (by decide) hc
  rw [ofText_digits hdigits]
  refine ⟨?_, fun u hu => ?_, ?_⟩
  · exact fun hnil => Nat.toDigits_ne_nil (List.map_eq_nil_iff.mp hnil)
  · obtain ⟨c, hc, rfl⟩ := List.mem_map.mp hu
    exact (units_digit (hdigits c hc)).2
  · rcases Nat.eq_zero_or_pos n with rfl | hn
    · exact .inr (by decide)
    · refine .inl fun hhead => ?_
      rw [List.head?_map, Option.map_eq_some_iff] at hhead
      obtain ⟨c, hc, hunit⟩ := hhead
      have hsingle := single_digit (hdigits c (List.mem_of_mem_head? hc))
      have hchar : chars [unit c] = chars [unit '0'] := congrArg (fun u => chars [u]) hunit
      rw [chars_unit_cons hsingle, chars_unit_cons (by decide)] at hchar
      exact head?_toDigits hn (hc.trans (congrArg some (List.cons.inj hchar).1))

end Iroh.Json
