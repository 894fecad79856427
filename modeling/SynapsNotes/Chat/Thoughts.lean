import SynapsNotes.Chat.Prompt
import SynapsNotes.Foundation.Search

/-!
# What is shown of an answer with thoughts in it

`parseThinkTags` of the chat and `visibleContent` of the note editor take the
blocks `<think>…</think>` out of the answer so far, whenever a token is
added to it. What they should leave is given here without regard to how they
search (`outside`): a block runs to the first closing tag after it, or, while
there is none, to the end.

The two agree on the blocks that are closed (`thinkBlocks_eq`). A block still
open is shown, with its tag: no control token overlaps the tag, so that it
outlives `sanitizeOutput` (`length_sanitizeOutput_lt`).
-/

namespace SynapsNotes.Chat

open Framework Text

def openTag : Text := "<think>".toList
def closeTag : Text := "</think>".toList

theorem closeTag_marked : Marked '<' closeTag := by decide

/-- What the note editor shows of a raw answer. -/
def visibleContent (text : String) : String :=
  String.ofList (sanitizeOutput (thinkBlocks 0 text.toList).1)

/-! ## The text outside of the blocks -/

theorem length_after_lt {t before rest thought after : Text}
    (ht : splitFirst openTag t = some (before, rest))
    (hrest : splitFirst closeTag rest = some (thought, after)) : after.length < t.length := by
  rw [eq_of_splitFirst ht, eq_of_splitFirst hrest]
  have : openTag.length = 7 := rfl
  simp only [List.length_append]
  omega

/-- The text outside of the blocks, and the thought of the block that is
still open at the end, if one is. -/
def outside (t : Text) : Text × Option Text :=
  match _ : splitFirst openTag t with
  | Option.none => (t, Option.none)
  | some (before, rest) =>
    match _ : splitFirst closeTag rest with
    | Option.none => (before, some rest)
    | some (_, after) =>
      let r := outside after
      (before ++ r.1, r.2)
termination_by t.length
decreasing_by exact length_after_lt ‹_› ‹_›

section Outside

variable {t before rest thought after : Text}

theorem outside_of_no_block (h : splitFirst openTag t = Option.none) :
    outside t = (t, Option.none) := by
  rw [outside]
  split
  · rfl
  · rename_i ht
    rw [h] at ht
    exact nomatch ht

theorem outside_of_open (h : splitFirst openTag t = some (before, rest))
    (h' : splitFirst closeTag rest = Option.none) : outside t = (before, some rest) := by
  rw [outside]
  split
  · rename_i ht
    rw [h] at ht
    exact nomatch ht
  · rename_i ht
    cases h.symm.trans ht
    split
    · rfl
    · rename_i hrest
      rw [h'] at hrest
      exact nomatch hrest

theorem outside_of_closed (h : splitFirst openTag t = some (before, rest))
    (h' : splitFirst closeTag rest = some (thought, after)) :
    outside t = (before ++ (outside after).1, (outside after).2) := by
  rw [outside]
  split
  · rename_i ht
    rw [h] at ht
    exact nomatch ht
  · rename_i ht
    cases h.symm.trans ht
    split
    · rename_i hrest
      rw [h'] at hrest
      exact nomatch hrest
    · rename_i hrest
      cases h'.symm.trans hrest
      rfl

end Outside

/-! ## The search of the regular expression -/

section Search

variable {t before rest thought after : Text}

theorem thinkBlocks_skip (k : Nat) (t : Text) : thinkBlocks k t = thinkBlocks 0 (t.drop k) := by
  induction t generalizing k with
  | nil => cases k <;> simp [thinkBlocks]
  | cons c t ih =>
    cases k with
    | zero => rfl
    | succ k => rw [thinkBlocks, ih, List.drop_succ_cons]

/-- Without a closing tag, nothing is a block. -/
theorem thinkBlocks_of_no_close (h : splitFirst closeTag t = Option.none) :
    thinkBlocks 0 t = (t, []) := by
  rw [splitFirst_eq_none_iff (by decide)] at h
  induction t with
  | nil => rfl
  | cons c t ih =>
    have htail : ¬ closeTag <:+: t := fun ht => h (ht.trans (List.suffix_cons c t).isInfix)
    rw [thinkBlocks]
    split
    · have hdrop : splitFirst closeTag ((c :: t).drop 7) = Option.none :=
        (splitFirst_eq_none_iff (by decide)).mpr fun hd => h (hd.trans (List.drop_suffix 7 _).isInfix)
      rw [show "</think>".toList = closeTag from rfl, hdrop]
      simp only [ih htail]
    · simp only [ih htail]

/-- Without an opening tag, nothing is a block. -/
theorem thinkBlocks_of_no_open (h : splitFirst openTag t = Option.none) :
    thinkBlocks 0 t = (t, []) := by
  induction t with
  | nil => rfl
  | cons c t ih =>
    rw [splitFirst] at h
    rw [thinkBlocks, show "<think>".toList = openTag from rfl]
    split at h
    · cases h
    · rename_i hp
      rw [if_neg hp]
      simp only [ih (Option.map_eq_none_iff.mp h)]

/-- The text before the first opening tag is passed over. -/
theorem thinkBlocks_before (h : splitFirst openTag t = some (before, rest)) :
    thinkBlocks 0 t = (before ++ (thinkBlocks 0 (openTag ++ rest)).1, (thinkBlocks 0 (openTag ++ rest)).2) := by
  refine splitFirst_before_induction (motive := fun t before rest =>
    thinkBlocks 0 t = (before ++ (thinkBlocks 0 (openTag ++ rest)).1, (thinkBlocks 0 (openTag ++ rest)).2))
    (by decide) ?_ ?_ h
  · intro c t hp
    obtain ⟨w, hw⟩ := List.isPrefixOf_iff_prefix.mp hp
    rw [← hw, List.drop_left, List.nil_append]
  · intro c t before rest hp _ ih
    rw [thinkBlocks, show "<think>".toList = openTag from rfl, if_neg hp]
    simp only [ih, List.cons_append]

/-- A block that is closed is taken out. -/
theorem thinkBlocks_closed (h : splitFirst closeTag rest = some (thought, after)) :
    thinkBlocks 0 (openTag ++ rest) = ((thinkBlocks 0 after).1, thought :: (thinkBlocks 0 after).2) := by
  show thinkBlocks 0 ('<' :: ("think>".toList ++ rest)) = _
  have hp : "<think>".toList.isPrefixOf ('<' :: ("think>".toList ++ rest)) = true :=
    List.isPrefixOf_iff_prefix.mpr ⟨rest, rfl⟩
  have hdrop : ('<' :: ("think>".toList ++ rest)).drop 7 = rest := rfl
  rw [thinkBlocks, if_pos hp, hdrop, show "</think>".toList = closeTag from rfl, h]
  have hskip : ("think>".toList ++ rest).drop (7 + thought.length + 8 - 1) = after := by
    have htag : "think>".toList.length = 6 := rfl
    have hblock : (thought ++ closeTag).length = thought.length + 8 := List.length_append
    rw [eq_of_splitFirst h, show 7 + thought.length + 8 - 1 = 6 + (thought.length + 8) by omega,
      ← List.drop_drop, List.drop_left' htag, List.drop_left' hblock]
  simp only [thinkBlocks_skip (7 + thought.length + 8 - 1), hskip]

/-- A block that is still open stays, with its tag. -/
theorem thinkBlocks_open (h : splitFirst closeTag rest = Option.none) :
    thinkBlocks 0 (openTag ++ rest) = (openTag ++ rest, []) := by
  refine thinkBlocks_of_no_close ?_
  rw [splitFirst_eq_none_iff (by decide)] at h ⊢
  intro hi
  rcases List.infix_cons_iff.mp (show closeTag <:+: '<' :: ("think>".toList ++ rest) from hi) with hp | hi
  · exact absurd (List.cons_prefix_cons.mp (List.cons_prefix_cons.mp hp).2).1 (by decide)
  · exact h (closeTag_marked.infix_of_not_mem (by decide) hi)

/-- The regular expression leaves the text outside of the blocks, and a block
that is still open. -/
theorem thinkBlocks_eq (t : Text) :
    (thinkBlocks 0 t).1 = (outside t).1 ++ ((outside t).2.map (openTag ++ ·)).getD [] := by
  induction t using outside.induct with
  | case1 t ht => simp [thinkBlocks_of_no_open ht, outside_of_no_block ht]
  | case2 t before rest ht hrest =>
    simp [thinkBlocks_before ht, thinkBlocks_open hrest, outside_of_open ht hrest]
  | case3 t before rest ht thought after hrest ih =>
    simp [thinkBlocks_before ht, thinkBlocks_closed hrest, outside_of_closed ht hrest, ih]

end Search

/-! ## Control tokens and the opening tag -/

/-- The control tokens begin like the tags, and go on differently from the
opening tag. -/
theorem controlTokens_clear : ∀ token ∈ controlTokens,
    Marked '<' token.toList ∧ token.toList[1]?.isSome ∧ token.toList[1]? ≠ some 't' := by decide

theorem replacingOccurrences_openTag {token : String} (h : token ∈ controlTokens) (x y : Text) :
    replacingOccurrences token.toList [] (x ++ (openTag ++ y)) =
      replacingOccurrences token.toList [] x ++
        (openTag ++ replacingOccurrences token.toList [] y) := by
  obtain ⟨hmarked, hlen, hne⟩ := controlTokens_clear token h
  obtain ⟨r, hr, hc⟩ := id hmarked
  rw [hr] at hmarked hlen hne ⊢
  cases r with
  | nil => exact nomatch hlen
  | cons d r =>
    have hde : d ≠ 't' := fun hd => hne (congrArg some hd)
    exact replacingOccurrences_barrier hmarked hde (show Marked '<' openTag by decide) x y

theorem foldl_replacingOccurrences_openTag (tokens : List String) (h : tokens ⊆ controlTokens)
    (x y : Text) :
    tokens.foldl (fun cleaned token => replacingOccurrences token.toList [] cleaned)
        (x ++ (openTag ++ y)) =
      tokens.foldl (fun cleaned token => replacingOccurrences token.toList [] cleaned) x ++
        (openTag ++ tokens.foldl (fun cleaned token => replacingOccurrences token.toList [] cleaned) y) := by
  induction tokens generalizing x y with
  | nil => rfl
  | cons token tokens ih =>
    rw [List.cons_subset] at h
    simp only [List.foldl_cons, replacingOccurrences_openTag h.1, ih h.2]

/-- An opening tag outlives the removal of the control tokens, and so more is
shown with it than without it. -/
theorem length_sanitizeOutput_lt (x y : Text) :
    (sanitizeOutput x).length < (sanitizeOutput (x ++ (openTag ++ y))).length := by
  have htag : Trimmed isWhitespace openTag :=
    trimmed_of_ends (show openTag.head? = some '<' by decide) (show openTag.getLast? = some '>' by decide) rfl rfl
  rw [sanitizeOutput, sanitizeOutput, foldl_replacingOccurrences_openTag _ (List.Subset.refl _)]
  exact length_trim_lt htag (by decide) _ _

/-! ## What is shown while an answer streams -/

/-- What should be shown of a raw answer. -/
def expected (raw : String) : String := String.ofList (sanitizeOutput (outside raw.toList).1)

/-- The raw answer ends inside a block. -/
def EndsInBlock (raw : String) : Prop := (outside raw.toList).2 ≠ Option.none

theorem visibleContent_eq_expected_iff (raw : String) :
    visibleContent raw = expected raw ↔ ¬ EndsInBlock raw := by
  rw [visibleContent, expected, EndsInBlock, String.ofList_inj, thinkBlocks_eq, not_not]
  cases (outside raw.toList).2 with
  | none => simp
  | some thought =>
    refine iff_of_false (fun h => ?_) (fun h => nomatch h)
    have := length_sanitizeOutput_lt (outside raw.toList).1 thought
    rw [← h] at this
    exact Nat.lt_irrefl _ this

/-- One pass of the loop of `sendMessage`: the answer so far, and the content
of the assistant message. -/
def chatStep (s : String × String) (token : String) : String × String :=
  let fullResponse := s.1 ++ token
  (fullResponse, (parseThinkTags fullResponse).1)

/-- One pass of the loop of `runGeneration`: the output so far, and the
preview. -/
def editorStep (appendToExistingPreview : Bool) (basePreview : String) (s : String × String)
    (token : String) : String × String :=
  let rawOutput := s.1 ++ token
  let visible := visibleContent rawOutput
  (rawOutput, if appendToExistingPreview then basePreview ++ visible else visible)

/-- The content of the assistant message after the tokens of a stream. -/
def chatShows (tokens : List String) : String := (tokens.foldl chatStep ("", "")).2

/-- The preview of the note editor after the tokens of a stream. -/
def editorShows (appendToExistingPreview : Bool) (previewText : String) (tokens : List String) :
    String :=
  let basePreview := if appendToExistingPreview then previewText else ""
  (tokens.foldl (editorStep appendToExistingPreview basePreview) ("", basePreview)).2

def rawOutput (tokens : List String) : String := tokens.foldl (· ++ ·) ""

theorem foldl_chatStep (tokens : List String) (full : String) :
    tokens.foldl chatStep (full, visibleContent full) =
      (tokens.foldl (· ++ ·) full, visibleContent (tokens.foldl (· ++ ·) full)) := by
  induction tokens generalizing full with
  | nil => rfl
  | cons token tokens ih => exact ih (full ++ token)

theorem foldl_editorStep (append : Bool) (base full : String) (tokens : List String) :
    tokens.foldl (editorStep append base) (full, if append then base ++ visibleContent full else visibleContent full) =
      (tokens.foldl (· ++ ·) full,
        if append then base ++ visibleContent (tokens.foldl (· ++ ·) full)
        else visibleContent (tokens.foldl (· ++ ·) full)) := by
  induction tokens generalizing full with
  | nil => rfl
  | cons token tokens ih => exact ih (full ++ token)

theorem visibleContent_empty : visibleContent "" = "" := by decide

theorem chatShows_eq (tokens : List String) : chatShows tokens = visibleContent (rawOutput tokens) := by
  have h := foldl_chatStep tokens ""
  rw [visibleContent_empty] at h
  rw [chatShows, h]
  rfl

theorem editorShows_eq (append : Bool) (preview : String) (tokens : List String) :
    editorShows append preview tokens =
      (if append then preview else "") ++ visibleContent (rawOutput tokens) := by
  have h := foldl_editorStep append (if append then preview else "") "" tokens
  cases append with
  | false =>
    simp only [visibleContent_empty, Bool.false_eq_true, if_false] at h
    simp [editorShows, h, rawOutput]
  | true =>
    simp only [visibleContent_empty, if_true, String.append_empty] at h
    simp [editorShows, h, rawOutput]

/-- After every token of every stream, the chat and the note editor show what
is outside of the blocks, exactly if the stream does not break off inside a
block. -/
theorem shown_eq_expected_iff (tokens : List String) :
    (chatShows tokens = expected (rawOutput tokens) ∧
      ∀ append preview, editorShows append preview tokens =
        (if append then preview else "") ++ expected (rawOutput tokens)) ↔
      ¬ EndsInBlock (rawOutput tokens) := by
  rw [chatShows_eq, visibleContent_eq_expected_iff]
  refine ⟨fun h => h.1, fun h => ⟨h, fun append preview => ?_⟩⟩
  rw [editorShows_eq, (visibleContent_eq_expected_iff _).mpr h]

/-- The thought of an answer that was cut off is shown. -/
theorem cut_off_thought_is_shown :
    chatShows ["<think>", "plan"] = "<think>plan" ∧
      chatShows ["<think>", "plan"] ≠ expected (rawOutput ["<think>", "plan"]) := by
  have h : outside (rawOutput ["<think>", "plan"]).toList = ([], some "plan".toList) :=
    outside_of_open (by decide) (by decide)
  rw [expected, h]
  decide

example : visibleContent "a<think>b<think>c</think>d</think>e<think>f" = "ad</think>e<think>f" := by
  decide

end SynapsNotes.Chat
