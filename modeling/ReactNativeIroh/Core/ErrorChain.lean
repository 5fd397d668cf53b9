import Mathlib.Data.List.Basic

/-!
# The text of an error with its causes

An error of Rust has a text and may have a source, which is an error again.  `errorChain`
renders an error with its sources.  It compares each text with the end of what it has rendered
so far, and not with the text before it.

The texts rendered so far are a chain of prefixes of the result, one for each error
(`errorChain_prefixes`).  A text is missing from the result only where it ends what was rendered
before it.
-/

namespace Iroh.Core

/-- An error, by its text and its source. -/
inductive StdError where
  | root (text : String)
  | caused (text : String) (source : StdError)
deriving DecidableEq

namespace StdError

def toText : StdError → String
  | .root text => text
  | .caused text _ => text

def source : StdError → Option StdError
  | .root _ => none
  | .caused _ source => some source

/-- The texts of the errors behind this one, from the nearest to the root. -/
def causes : StdError → List String
  | .root _ => []
  | .caused _ source => source.toText :: source.causes

/-- All texts of the chain. -/
def texts (e : StdError) : List String := e.toText :: e.causes

end StdError

/-- `rendered.ends_with(&text)`. -/
def EndsWith (rendered text : String) : Prop := text.toList <:+ rendered.toList

instance (rendered text : String) : Decidable (EndsWith rendered text) :=
  inferInstanceAs (Decidable (text.toList <:+ rendered.toList))

/-- One round of the loop. -/
def pushCause (rendered text : String) : String :=
  if EndsWith rendered text then rendered else rendered ++ (": " ++ text)

/-- The loop, from the next error on. -/
def pushCauses (rendered : String) : StdError → String
  | .root text => pushCause rendered text
  | .caused text source => pushCauses (pushCause rendered text) source

def errorChain (error : StdError) : String :=
  match error with
  | .root text => text
  | .caused text source => pushCauses text source

/-! ## One round -/

variable {rendered text : String}

theorem pushCause_of_endsWith (h : EndsWith rendered text) : pushCause rendered text = rendered :=
  if_pos h

theorem pushCause_of_not_endsWith (h : ¬ EndsWith rendered text) :
    pushCause rendered text = rendered ++ (": " ++ text) :=
  if_neg h

theorem endsWith_append (rendered text : String) : EndsWith (rendered ++ text) text := by
  rw [EndsWith, String.toList_append]
  exact List.suffix_append ..

/-- After a round the text ends what was rendered. -/
theorem endsWith_pushCause (rendered text : String) : EndsWith (pushCause rendered text) text := by
  by_cases h : EndsWith rendered text
  · rwa [pushCause_of_endsWith h]
  · rw [pushCause_of_not_endsWith h, ← String.append_assoc]
    exact endsWith_append ..

theorem prefix_pushCause (rendered text : String) :
    rendered.toList <+: (pushCause rendered text).toList := by
  by_cases h : EndsWith rendered text
  · rewrite [pushCause_of_endsWith h]
    exact List.prefix_rfl
  · rw [pushCause_of_not_endsWith h, String.toList_append]
    exact List.prefix_append ..

theorem pushCause_eq_self : pushCause rendered text = rendered ↔ EndsWith rendered text := by
  refine ⟨fun h => ?_, pushCause_of_endsWith⟩
  by_contra hne
  have hlength := congrArg (fun s => s.toList.length) h
  rw [pushCause_of_not_endsWith hne] at hlength
  simp at hlength

/-! ## The whole loop -/

theorem pushCauses_eq_foldl (rendered : String) (error : StdError) :
    pushCauses rendered error = error.texts.foldl pushCause rendered := by
  induction error generalizing rendered with
  | root text => rfl
  | caused text source ih => exact ih (pushCause rendered text)

theorem errorChain_eq_foldl (error : StdError) :
    errorChain error = error.causes.foldl pushCause error.toText := by
  cases error with
  | root text => rfl
  | caused text source => exact pushCauses_eq_foldl text source

theorem prefix_foldl_pushCause (rendered : String) (texts : List String) :
    rendered.toList <+: (texts.foldl pushCause rendered).toList := by
  induction texts generalizing rendered with
  | nil => exact List.prefix_rfl
  | cons text texts ih => exact (prefix_pushCause rendered text).trans (ih _)

/-- What is rendered after so many causes. -/
def renderedAfter (error : StdError) (i : ℕ) : String :=
  (error.causes.take i).foldl pushCause error.toText

theorem renderedAfter_succ {error : StdError} {i : ℕ} {text : String}
    (h : error.causes[i]? = some text) :
    renderedAfter error (i + 1) = pushCause (renderedAfter error i) text := by
  rw [renderedAfter, List.take_add_one, h, Option.toList_some, List.foldl_append]
  rfl

theorem renderedAfter_length (error : StdError) :
    renderedAfter error error.causes.length = errorChain error := by
  rw [renderedAfter, List.take_length, errorChain_eq_foldl]

/-- What was rendered after some causes is a prefix of the result. -/
theorem renderedAfter_prefix (error : StdError) (i : ℕ) :
    (renderedAfter error i).toList <+: (errorChain error).toList := by
  rw [errorChain_eq_foldl, ← List.take_append_drop i error.causes, List.foldl_append]
  exact prefix_foldl_pushCause ..

/-- Where no text ends the join of those before it, the loop joins the texts. -/
theorem foldl_pushCause_join (first : String) (done rest : List String)
    (h : ∀ i text, rest[i]? = some text →
      ¬ EndsWith (": ".intercalate (first :: (done ++ rest.take i))) text) :
    rest.foldl pushCause (": ".intercalate (first :: done)) =
      ": ".intercalate (first :: (done ++ rest)) := by
  induction rest generalizing done with
  | nil => rw [List.append_nil, List.foldl_nil]
  | cons text rest ih =>
      have hfirst : ¬ EndsWith (": ".intercalate (first :: done)) text := by
        simpa using h 0 text rfl
      have hjoin : pushCause (": ".intercalate (first :: done)) text =
          ": ".intercalate (first :: (done ++ [text])) := by
        rw [pushCause_of_not_endsWith hfirst, ← List.cons_append,
          String.intercalate_append_of_ne_nil (List.cons_ne_nil _ _) (List.cons_ne_nil _ _),
          String.intercalate_singleton, String.append_assoc]
      have hrest : ∀ i next, rest[i]? = some next →
          ¬ EndsWith (": ".intercalate (first :: ((done ++ [text]) ++ rest.take i))) next := by
        intro i next hi
        have hnext := h (i + 1) next (by simpa using hi)
        rwa [List.take_succ_cons, List.append_cons] at hnext
      rw [List.foldl_cons, hjoin, ih _ hrest, List.append_assoc, List.singleton_append]

/-! ## No cause is lost -/

/-- The prefixes `p` lead from the first text to the result, one round at a time. -/
structure RendersBy (texts : List String) (rendered : String) (p : ℕ → String) : Prop where
  first : texts[0]? = some (p 0)
  last : p (texts.length - 1) = rendered
  isPrefix : ∀ i < texts.length, (p i).toList <+: rendered.toList
  grows : ∀ i, i + 1 < texts.length → (p i).toList <+: (p (i + 1)).toList
  ends : ∀ i text, texts[i]? = some text → EndsWith (p i) text
  round : ∀ i text, texts[i + 1]? = some text →
    (p (i + 1) = p i ∨ p (i + 1) = p i ++ (": " ++ text)) ∧
      (p (i + 1) = p i ↔ EndsWith (p i) text)

/-- No text repeats the end of what precedes it. -/
def Unrepeated (texts : List String) : Prop :=
  ∀ i text, texts[i + 1]? = some text → ¬ EndsWith (": ".intercalate (texts.take (i + 1))) text

theorem renders_by (error : StdError) :
    RendersBy error.texts (errorChain error) (renderedAfter error) where
  first := rfl
  last := renderedAfter_length error
  isPrefix i _ := renderedAfter_prefix error i
  grows i hi := by
    obtain ⟨text, htext⟩ : ∃ text, error.causes[i]? = some text :=
      ⟨_, List.getElem?_eq_getElem (Nat.lt_of_succ_lt_succ hi)⟩
    rw [renderedAfter_succ htext]
    exact prefix_pushCause ..
  ends i text htext := by
    cases i with
    | zero =>
        obtain rfl := Option.some.inj htext
        exact List.suffix_rfl
    | succ i =>
        rw [renderedAfter_succ htext]
        exact endsWith_pushCause ..
  round i text htext := by
    rw [renderedAfter_succ htext]
    refine ⟨?_, pushCause_eq_self⟩
    by_cases h : EndsWith (renderedAfter error i) text
    · exact .inl (pushCause_of_endsWith h)
    · exact .inr (pushCause_of_not_endsWith h)

theorem errorChain_prefixes (error : StdError) :
    (∃ p, RendersBy error.texts (errorChain error) p) ∧
      (Unrepeated error.texts → errorChain error = ": ".intercalate error.texts) := by
  refine ⟨⟨_, renders_by error⟩, fun h => ?_⟩
  have hjoin := foldl_pushCause_join error.toText [] error.causes h
  rwa [String.intercalate_singleton, ← errorChain_eq_foldl] at hjoin

/-- An error of the store behind two wrappers, one of which repeats it. -/
def storeRefused : StdError :=
  .caused "local failure" (.caused "store write refused" (.root "store write refused"))

theorem errorChain_prefixes_storeRefused :
    errorChain storeRefused = "local failure: store write refused" ∧
      errorChain (.caused "outer" (.caused "middle" (.root "disk on fire"))) =
        ": ".intercalate ["outer", "middle", "disk on fire"] := by
  refine ⟨by decide, (errorChain_prefixes _).2 ?_⟩
  intro i text htext
  match i, htext with
  | 0, htext =>
      obtain rfl := Option.some.inj htext
      decide
  | 1, htext =>
      obtain rfl := Option.some.inj htext
      decide

end Iroh.Core
