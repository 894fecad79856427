import SynapsNotes.Chat.Thoughts
import SynapsNotes.Framework.Fillers

/-!
# What is left in a cleaned answer

`parseThinkTags` takes out the blocks that are closed, and then the control
tokens, one after the other and each once. What a token leaves when it is taken
out can be a token that was looked for before, or a tag (`clean_iff`).
-/

namespace SynapsNotes.Chat

open Framework Text

def controlWords : List Text := controlTokens.map String.toList

theorem controlWords_bracketed : ∀ s ∈ controlWords, Bracketed '<' '>' s := by decide

theorem controlWords_nodup : controlWords.Nodup := by decide

theorem openTag_bracketed : Bracketed '<' '>' openTag := by decide

theorem closeTag_bracketed : Bracketed '<' '>' closeTag := by decide

/-- `replacingOccurrences(of: token, with: "")`. -/
def removing (token : Text) : Text → Text := replacingOccurrences token []

theorem deletes_removing (s : Text) (hs : Bracketed '<' '>' s) : Deletes s (removing s) :=
  deletes_replacingOccurrences hs

theorem sanitizeOutput_eq (t : Text) :
    sanitizeOutput t = trim isWhitespace (deletions removing controlWords t) := by
  rw [deletions, controlWords, List.foldl_map]
  rfl

theorem trimmed_of_brackets {t : Text} (hhead : t.head? = some '<') (hlast : t.getLast? = some '>') :
    Trimmed isWhitespace t :=
  trimmed_of_ends hhead hlast rfl rfl

/-- The text without its blocks, as far as they are closed. -/
def unblocked (t : Text) : Text := (outside t).1 ++ ((outside t).2.map (openTag ++ ·)).getD []

/-- The content holds no control token and no block, and cleaning it again
changes nothing. -/
structure Clean (content : String) : Prop where
  noToken : ∀ s ∈ controlWords, ¬ s <:+: content.toList
  noBlock : ¬ ∃ thought, openTag ++ thought ++ closeTag <:+: content.toList
  settled : String.ofList (sanitizeOutput content.toList) = content

/-- The texts that the control tokens leave nothing of. -/
def controlFillers : Language Char := fillers controlWords controlWords.length

/-- An opening tag and, behind it, a closing one stand in the text, with
control tokens between their letters or without. -/
def LeavesBlock (t : Text) : Prop :=
  ∃ v thought v', v ++ thought ++ v' <:+: t ∧ v ∈ around controlFillers openTag ∧ v' ∈ around controlFillers closeTag

section Clean

variable {t : Text}

theorem infix_sanitizeOutput_iff {s : Text} (hs : s ∈ controlWords) :
    s <:+: sanitizeOutput t ↔ LeftOver controlWords s t := by
  have hbracketed := controlWords_bracketed s hs
  rw [sanitizeOutput_eq, infix_trim_iff (trimmed_of_brackets hbracketed.head hbracketed.last) hbracketed.ne_nil]
  exact infix_deletions_iff deletes_removing controlWords_bracketed controlWords_nodup hbracketed

theorem block_infix_sanitizeOutput_iff :
    (∃ thought, openTag ++ thought ++ closeTag <:+: sanitizeOutput t) ↔ LeavesBlock t := by
  rw [LeavesBlock, controlFillers, ← infix_deletions_pair_iff deletes_removing controlWords_bracketed
    controlWords_nodup openTag_bracketed closeTag_bracketed (by decide) (by decide)]
  refine exists_congr fun thought => ?_
  have hlast : (openTag ++ thought ++ closeTag).getLast? = some '>' := by
    rw [List.getLast?_append_of_ne_nil _ closeTag_bracketed.ne_nil]
    exact closeTag_bracketed.last
  have hne : openTag ++ thought ++ closeTag ≠ [] := List.append_ne_nil_of_right_ne_nil _ closeTag_bracketed.ne_nil
  rw [sanitizeOutput_eq, infix_trim_iff (trimmed_of_brackets rfl hlast) hne]

/-- Without a control token in it, cleaned text stays as it is. -/
theorem sanitizeOutput_sanitizeOutput (h : ∀ s ∈ controlWords, ¬ s <:+: sanitizeOutput t) :
    sanitizeOutput (sanitizeOutput t) = sanitizeOutput t := by
  have htrim : Trimmed isWhitespace (sanitizeOutput t) := trimmed_trim _ _
  rw [sanitizeOutput_eq (sanitizeOutput t), deletions_of_absent deletes_removing controlWords_bracketed h,
    htrim.trim_eq]

/-- For every raw answer, the content is clean exactly if, outside of the
closed blocks, no control token stands around one that is taken out with it or
after it, and no tags are left when the control tokens are taken out. -/
theorem clean_iff (raw : String) : Clean (parseThinkTags raw).1 ↔
    (∀ s ∈ controlWords, ¬ LeftOver controlWords s (unblocked raw.toList)) ∧ ¬ LeavesBlock (unblocked raw.toList) := by
  have hcontent : (parseThinkTags raw).1.toList = sanitizeOutput (unblocked raw.toList) := by
    rw [unblocked, ← thinkBlocks_eq]
    exact String.toList_ofList
  have hblock := not_congr (block_infix_sanitizeOutput_iff (t := unblocked raw.toList))
  constructor
  · intro h
    refine ⟨fun s hs hleft => h.noToken s hs ?_, fun hleaves => h.noBlock ?_⟩
    · rw [hcontent]
      exact (infix_sanitizeOutput_iff hs).mpr hleft
    · rw [hcontent]
      exact block_infix_sanitizeOutput_iff.mpr hleaves
  · rintro ⟨htokens, htags⟩
    have hnone : ∀ s ∈ controlWords, ¬ s <:+: sanitizeOutput (unblocked raw.toList) := fun s hs h =>
      htokens s hs ((infix_sanitizeOutput_iff hs).mp h)
    refine ⟨?_, ?_, ?_⟩
    · rwa [hcontent]
    · rw [hcontent]
      exact hblock.mpr htags
    · rw [hcontent, sanitizeOutput_sanitizeOutput hnone, ← hcontent, String.ofList_toList]

/-- A control token written around itself is left over, and so is a block whose
tag is written around a control token. -/
theorem joined_tokens_are_left :
    ¬ Clean (parseThinkTags "<|im_<|im_end|>end|>").1 ∧ ¬ Clean (parseThinkTags "<thi<|user|>nk>a</think>").1 := by
  refine ⟨fun h => h.noToken "<|im_end|>".toList (by decide) (by decide), fun h => h.noBlock ⟨['a'], ?_⟩⟩
  decide

end Clean

end SynapsNotes.Chat
