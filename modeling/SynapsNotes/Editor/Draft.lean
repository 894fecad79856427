import SynapsNotes.Chat.Thoughts
import SynapsNotes.Foundation.Utf16

/-!
# The drafts of the note editor

The actions and styles of the note editor's assistant, the part of a note an
action works on, the prompts it makes and the note it proposes.
-/

namespace SynapsNotes.Editor

open Chat

inductive NoteAIOutputStyle
  | concise
  | balanced
  | editorial
  deriving DecidableEq

def NoteAIOutputStyle.title : NoteAIOutputStyle → String
  | concise => "Concise"
  | balanced => "Balanced"
  | editorial => "Editorial"

inductive NoteAIAction
  | autoComplete
  | summarize
  | rewrite
  | bulletPoints
  deriving DecidableEq

inductive TargetMode
  | selection
  | cursor
  | fullNote
  deriving DecidableEq

/-- The note when an action was started, and what of it the draft replaces. -/
structure Snapshot where
  baseText : String
  originalSelection : NSRange
  replacementRange : NSRange
  mode : TargetMode
  selectedText : String
  beforeCursor : String
  afterCursor : String
  deriving DecidableEq

def clampedRange (range : NSRange) (text : String) : NSRange :=
  let length : Int := (NSString.ofString text).length
  let location := min (max 0 range.location) length
  let safeLength := min (max 0 range.length) (length - location)
  { location := location, length := safeLength }

/-! ## Prompts -/

def scopeText : TargetMode → String
  | .selection => "Scope: selected text"
  | .cursor => "Scope: insert at cursor"
  | .fullNote => "Scope: full note"

def styleInstruction : NoteAIAction → NoteAIOutputStyle → String
  | _, .concise => "Use compact phrasing and avoid extra detail."
  | .summarize, .balanced => "Balance brevity with key detail coverage."
  | .rewrite, .balanced => "Use natural, clear wording with moderate detail."
  | .bulletPoints, .balanced => "Use actionable bullets with one idea per line."
  | .autoComplete, .balanced => "Continue naturally without changing the existing voice."
  | .summarize, .editorial => "Preserve key points with stronger narrative flow and polished phrasing."
  | .rewrite, .editorial => "Prioritize readability, rhythm, and polished voice while keeping meaning."
  | .bulletPoints, .editorial => "Write sharp, polished bullets with strong verbs."
  | .autoComplete, .editorial => "Continue with expressive, polished prose while staying coherent."

def inputText (snapshot : Snapshot) : String :=
  match snapshot.mode with
  | .selection => snapshot.selectedText
  | .cursor | .fullNote => snapshot.baseText

/-- The lines every prompt of the note editor begins with. -/
def instructions (task : String) (rules : List String) : String :=
  joined "\n" (("Task: " ++ task) :: "Rules:" :: rules.map ("- " ++ ·))

def buildPrompt (action : NoteAIAction) (snapshot : Snapshot) (style : NoteAIOutputStyle) : String :=
  let styleRule := styleInstruction action style
  match action with
  | .autoComplete =>
    if snapshot.mode = .selection then
      instructions "Continue the selected passage naturally."
        ["Keep the same language, style, and tone.", "Return only the continuation text to append.",
          "Do not add explanations.", styleRule] ++
        "\n\nSELECTED_TEXT:\n" ++ snapshot.selectedText
    else
      instructions "Continue this note from the cursor position."
        ["Keep the same language, style, and tone.", "Return only the text to insert at the cursor.",
          "Do not add explanations.", styleRule] ++
        "\n\nBEFORE_CURSOR:\n" ++ snapshot.beforeCursor ++ "\n\nAFTER_CURSOR:\n" ++ snapshot.afterCursor
  | .summarize =>
    instructions "Summarize the provided text."
      ["Keep it concise and preserve key details.", "Return only the summary text.",
        "Do not add explanations.", styleRule] ++
      "\n\nINPUT_TEXT:\n" ++ inputText snapshot
  | .rewrite =>
    instructions "Rewrite the provided text."
      ["Improve clarity, flow, grammar, and tone.", "Keep original meaning and factual details.",
        "Return only the rewritten text.", "Do not add explanations.", styleRule] ++
      "\n\nINPUT_TEXT:\n" ++ inputText snapshot
  | .bulletPoints =>
    instructions "Convert the provided text into clear, actionable bullet points."
      ["Use lines that start with \"- \".", "Keep core facts and intent.",
        "Return only the bullet list text.", "Do not add explanations.", styleRule] ++
      "\n\nINPUT_TEXT:\n" ++ inputText snapshot

def buildResumePrompt (action : NoteAIAction) (snapshot : Snapshot) (style : NoteAIOutputStyle)
    (partialDraft : String) : String :=
  let originalTask := buildPrompt action snapshot style
  instructions "Continue the in-note draft below for the same editing request."
    ["Return only additional continuation text.", "Do not repeat content already in CURRENT_DRAFT.",
      "Keep language, style, and tone consistent.", "Do not add explanations."] ++
    "\n\nORIGINAL_REQUEST:\n" ++ originalTask ++ "\n\nCURRENT_DRAFT:\n" ++ partialDraft

/-- The messages `runGeneration` asks for. -/
def generationMessages (prompt : String) : List PromptMessage :=
  [⟨"system", "You are an in-note writing assistant. Return plain text only with no markdown code fences."⟩,
    ⟨"user", prompt⟩]

/-! ## The note with the draft in it -/

def replacementText (action : NoteAIAction) (snapshot : Snapshot) (preview : String) : String :=
  if action = .autoComplete ∧ snapshot.mode = .selection then snapshot.selectedText ++ preview
  else preview

structure ApplyResult where
  content : String
  selectedRange : NSRange
  action : NoteAIAction
  deriving DecidableEq

structure RejectResult where
  content : String
  selectedRange : NSRange
  deriving DecidableEq

/-- What `accept` makes of a draft. -/
def applied (action : NoteAIAction) (snapshot : Snapshot) (previewText : String) : ApplyResult :=
  let replacement := replacementText action snapshot previewText
  let content := (NSString.ofString snapshot.baseText).replacingCharacters snapshot.replacementRange replacement
  let location := snapshot.replacementRange.location + (NSString.ofString replacement).length
  { content, selectedRange := clampedRange ⟨location, 0⟩ content, action }

/-- The part of a note that an action works on. -/
def takeSnapshot (action : NoteAIAction) (noteText : String) (safeSelection : NSRange) : Snapshot :=
  let nsText := NSString.ofString noteText
  let hasSelection := 0 < safeSelection.length
  { baseText := noteText
    originalSelection := safeSelection
    replacementRange :=
      if hasSelection then safeSelection
      else if action = .autoComplete then ⟨safeSelection.location, 0⟩
      else ⟨0, nsText.length⟩
    mode := if hasSelection then .selection else if action = .autoComplete then .cursor else .fullNote
    selectedText := if hasSelection then nsText.substring safeSelection else ""
    beforeCursor := nsText.substringTo safeSelection.location
    afterCursor := nsText.substringFrom safeSelection.location }

end SynapsNotes.Editor
