import SynapsNotes.Chat.Templates
import SynapsNotes.Foundation.Encoding

/-!
# From the messages of a prompt to its text

`applyTemplate` gives the messages to llama.cpp as C strings and a buffer to
write the prompt to. What was written is counted in an `int32_t`: a prompt that
does not fit is written once more, to a buffer of that length. Where llama.cpp
does not know the template, `applyManualTemplate` writes the prompt.

As long as the lengths are an `int32_t` the prompt that is returned is the
whole of llama.cpp's or of the manual one (`applyTemplate_eq_wholePrompt`), and
so it holds every turn of the conversation.
-/

namespace SynapsNotes.Chat

open Framework

/-! ## C strings and their buffers -/

/-- A string as `strdup` copies it. -/
def cString (s : String) : String := String.ofList (s.toList.takeWhile (· ≠ '\x00'))

/-- The bytes of a C string. -/
def cBytes (bytes : Bytes) : Bytes := bytes.takeWhile (· ≠ 0)

/-- What `strncpy` writes to a buffer of `n` bytes. -/
def strncpy (src : Bytes) (n : Nat) : Bytes :=
  (cBytes src).take n ++ List.replicate (n - (cBytes src).length) 0

/-- `String(cString:)` of a buffer. There is none where the zero at its end is
missing or the bytes are not valid. -/
def stringOfCString (buffer : Bytes) : Option String :=
  if 0 ∈ buffer then (utf8Decode (cBytes buffer)).map String.ofList else none

/-- The conversion of a `size_t` to an `int32_t`. -/
def toInt32 (n : Nat) : Int := (n : Int).bmod 4294967296

def int32Max : Nat := 2147483647

/-! ## The source -/

/-- What llama.cpp writes for a template text, or for none. -/
def rendered (tmpl : Option String) (chat : List PromptMessage) : Option Text :=
  (llmChatApplyTemplate (llmChatDetectTemplate (tmpl.getD "chatml")) chat true).map writtenText

/-- `llama_chat_apply_template`, with `add_ass`: what it returns, and the
buffer of a length it was given. -/
def llamaChatApplyTemplate (tmpl : Option String) (chat : List PromptMessage) (length : Nat) : Int × Bytes :=
  let buffer := List.replicate length 0
  match rendered tmpl chat with
  | none => (-1, buffer)
  | some formattedChat =>
    let res := toInt32 (utf8 formattedChat).length
    (res, if 0 ≤ res ∧ 0 < length then strncpy (utf8 formattedChat) length else buffer)

def imStart : String := "<|im_start|>"
def imEnd : String := "<|im_end|>"

/-- A message between the markers of ChatML. -/
def manualTurn (role content : String) : String := imStart ++ role ++ "\n" ++ content ++ imEnd ++ "\n"

def applyManualTemplate (messages : List PromptMessage) : String :=
  let systemPrompt := ((messages.find? fun m => m.role == "system").map PromptMessage.content).getD ""
  let formatted := if systemPrompt.isEmpty then "" else manualTurn "system" systemPrompt
  let formatted := messages.foldl (fun formatted m =>
    if m.role == "system" then formatted else formatted ++ manualTurn m.role m.content) formatted
  formatted ++ imStart ++ "assistant\n"

def estimatedChars (messages : List PromptMessage) : Nat :=
  max 1024 ((messages.map fun m => (utf8 m.content.toList).length + 32).sum * 2)

def PromptMessage.cString (m : PromptMessage) : PromptMessage := ⟨Chat.cString m.role, Chat.cString m.content⟩

/-- `applyTemplate` of a model, if there is one, which has a template text or
none; `copied` says that every `strdup` had the memory it needed. Nothing is
returned where a length is no `Int32`, or a buffer holds no string. -/
def applyTemplate (model : Option (Option String)) (copied : Bool) (messages : List PromptMessage) : Option String :=
  match model with
  | none => some (applyManualTemplate messages)
  | some tmpl =>
    if messages.isEmpty || !copied then some (applyManualTemplate messages)
    else
      let chat := messages.map PromptMessage.cString
      let count := estimatedChars messages
      if int32Max < count then none
      else
        let (outLen, buffer) := llamaChatApplyTemplate tmpl chat count
        if outLen < 0 then some (applyManualTemplate messages)
        else if (count : Int) ≤ outLen then
          if (int32Max : Int) ≤ outLen then none
          else
            let (outLen, resized) := llamaChatApplyTemplate tmpl chat (outLen.toNat + 1)
            if outLen < 0 then some (applyManualTemplate messages) else stringOfCString resized
        else stringOfCString buffer

/-! ## The buffer -/

section Buffer

variable {c : Char} {t : Text} {s : String} {n : Nat} {m : PromptMessage}

theorem toInt32_of_le (h : n ≤ int32Max) : toInt32 n = n := by
  rw [int32Max] at h
  exact Int.bmod_eq_of_le (by omega) (by omega)

theorem cBytes_of_absent {bytes : Bytes} (h : 0 ∉ bytes) : cBytes bytes = bytes := by
  rw [cBytes, List.takeWhile_eq_self_iff]
  intro b hb
  rw [decide_eq_true_iff]
  rintro rfl
  exact h hb

/-- A text that fits is read back from the buffer. -/
theorem stringOfCString_strncpy (ht : '\x00' ∉ t) (hn : (utf8 t).length < n) :
    stringOfCString (strncpy (utf8 t) n) = some (String.ofList t) := by
  have hzero : 0 ∉ utf8 t := fun h => ht (zero_mem_utf8.mp h)
  obtain ⟨k, hk⟩ : ∃ k, n - (utf8 t).length = k + 1 := ⟨n - (utf8 t).length - 1, by omega⟩
  have hbuffer : strncpy (utf8 t) n = utf8 t ++ 0 :: List.replicate k 0 := by
    rw [strncpy, cBytes_of_absent hzero, List.take_of_length_le hn.le, hk, List.replicate_succ]
  have hbytes : cBytes (utf8 t ++ 0 :: List.replicate k 0) = utf8 t := by
    rw [cBytes, List.takeWhile_append_of_pos, List.takeWhile_cons_of_neg (by simp), List.append_nil]
    intro b hb
    rw [decide_eq_true_iff]
    rintro rfl
    exact hzero hb
  rw [hbuffer, stringOfCString, if_pos (by simp), hbytes, utf8Decode_utf8]
  rfl

theorem nulFree_cString (s : String) : NulFree (cString s) := by
  rw [NulFree, cString, String.toList_ofList]
  intro h
  simpa using List.mem_takeWhile_imp h

theorem PromptMessage.nulFree_cString (m : PromptMessage) : m.cString.NulFree :=
  ⟨Chat.nulFree_cString m.role, Chat.nulFree_cString m.content⟩

theorem cString_eq_self_iff : cString s = s ↔ NulFree s := by
  constructor
  · intro h
    rw [← h]
    exact nulFree_cString s
  · intro h
    rw [cString, List.takeWhile_eq_self_iff.mpr, String.ofList_toList]
    intro c hc
    rw [decide_eq_true_iff]
    rintro rfl
    exact h hc

theorem cString_isPrefix (s : String) : (cString s).toList <+: s.toList := by
  rw [cString, String.toList_ofList]
  exact List.takeWhile_prefix _

end Buffer

/-! ## What `applyTemplate` returns -/

section Whole

variable {model : Option (Option String)} {tmpl : Option String} {copied : Bool} {m m' : PromptMessage}
  {messages chat : List PromptMessage} {text : Text}

/-- The lengths are an `Int32`, also with a zero at the end. -/
structure Fits (model : Option (Option String)) (messages : List PromptMessage) : Prop where
  count : estimatedChars messages ≤ int32Max
  rendered : ∀ tmpl ∈ model, ∀ text ∈ rendered tmpl (messages.map PromptMessage.cString), (utf8 text).length < int32Max

theorem nulFree_rendered (h : rendered tmpl (messages.map PromptMessage.cString) = some text) : '\x00' ∉ text := by
  obtain ⟨written, hw, rfl⟩ := Option.map_eq_some_iff.mp h
  have hmessages : ∀ m ∈ messages.map PromptMessage.cString, m.NulFree :=
    List.forall_mem_map.mpr fun m _ => m.nulFree_cString
  intro hmem
  obtain ⟨s, hs, hnul⟩ := List.mem_flatMap.mp hmem
  exact nulFree_llmChatApplyTemplate hmessages hw s hs hnul

theorem llamaChatApplyTemplate_of_rendered {length : Nat} (h : rendered tmpl chat = some text)
    (hlen : (utf8 text).length ≤ int32Max) (hpos : 0 < length) :
    llamaChatApplyTemplate tmpl chat length = (((utf8 text).length : Int), strncpy (utf8 text) length) := by
  simp only [llamaChatApplyTemplate, h, toInt32_of_le hlen, Int.natCast_nonneg, hpos, and_self, if_true]

/-- The buffer, or the one of the right length, holds the whole text. -/
theorem applyTemplate_eq_rendered (hne : messages ≠ []) (hcount : estimatedChars messages ≤ int32Max)
    (h : rendered tmpl (messages.map PromptMessage.cString) = some text) (hlen : (utf8 text).length < int32Max) :
    applyTemplate (some tmpl) true messages = some (String.ofList text) := by
  have hnul := nulFree_rendered h
  have hpos : 0 < estimatedChars messages := lt_of_lt_of_le (by decide) (le_max_left 1024 _)
  have hfirst := llamaChatApplyTemplate_of_rendered h hlen.le hpos
  have hsecond := llamaChatApplyTemplate_of_rendered h hlen.le (Nat.succ_pos (utf8 text).length)
  have hnonneg : ¬ ((utf8 text).length : Int) < 0 := not_lt.mpr (Int.natCast_nonneg _)
  have hmax : ¬ (int32Max : Int) ≤ (utf8 text).length := by omega
  simp only [applyTemplate, List.isEmpty_eq_false_iff.mpr hne, Bool.not_true, Bool.or_self, Bool.false_eq_true,
    if_false, not_lt.mpr hcount, hfirst, hnonneg, hmax, Int.toNat_natCast, hsecond]
  split
  · exact stringOfCString_strncpy hnul (Nat.lt_succ_self _)
  · exact stringOfCString_strncpy hnul (by omega)

/-- The prompt that is written: llama.cpp's, where it is asked for one and knows
the template, and the manual one otherwise. -/
def wholePrompt (model : Option (Option String)) (copied : Bool) (messages : List PromptMessage) : String :=
  if messages.isEmpty || !copied then applyManualTemplate messages
  else match model.bind fun tmpl => rendered tmpl (messages.map PromptMessage.cString) with
    | some text => String.ofList text
    | none => applyManualTemplate messages

theorem wholePrompt_of_rendered (hne : messages ≠ [])
    (h : rendered tmpl (messages.map PromptMessage.cString) = some text) :
    wholePrompt (some tmpl) true messages = String.ofList text := by
  simp only [wholePrompt, List.isEmpty_eq_false_iff.mpr hne, Bool.not_true, Bool.or_self, Bool.false_eq_true, if_false,
    Option.bind_some, h]

theorem wholePrompt_cases (model : Option (Option String)) (copied : Bool) (messages : List PromptMessage) :
    wholePrompt model copied messages = applyManualTemplate messages ∨
      ∃ tmpl ∈ model, ∃ text ∈ rendered tmpl (messages.map PromptMessage.cString),
        wholePrompt model copied messages = String.ofList text := by
  unfold wholePrompt
  split
  · exact .inl rfl
  · split
    · rename_i text htext
      obtain ⟨tmpl, hmodel, htext⟩ := Option.bind_eq_some_iff.mp htext
      exact .inr ⟨tmpl, hmodel, text, htext, rfl⟩
    · exact .inl rfl

/-- The prompt is returned whole. -/
theorem applyTemplate_eq_wholePrompt (copied : Bool) (hfits : Fits model messages) :
    applyTemplate model copied messages = some (wholePrompt model copied messages) := by
  cases model with
  | none => simp only [applyTemplate, wholePrompt, Option.bind_none, ite_self]
  | some tmpl =>
    by_cases hmanual : (messages.isEmpty || !copied) = true
    · simp only [applyTemplate, wholePrompt, hmanual, if_true]
    · obtain ⟨hempty, hcopied⟩ := Bool.or_eq_false_iff.mp (Bool.not_eq_true _ ▸ hmanual)
      obtain rfl : copied = true := by simpa using hcopied
      have hne := List.isEmpty_eq_false_iff.mp hempty
      cases h : rendered tmpl (messages.map PromptMessage.cString) with
      | some text =>
        rw [wholePrompt_of_rendered hne h]
        exact applyTemplate_eq_rendered hne hfits.count h (hfits.rendered tmpl rfl text h)
      | none =>
        simp only [applyTemplate, wholePrompt, hempty, Bool.not_true, Bool.or_self, Bool.false_eq_true, if_false,
          not_lt.mpr hfits.count, llamaChatApplyTemplate, Option.bind_some, h]
        rfl

end Whole

/-! ## The turns -/

section Turns

variable {model : Option (Option String)} {copied : Bool} {m m' : PromptMessage} {messages chat : List PromptMessage}
  {written : List String}

/-- What is looked for in the prompt: the turns as llama.cpp is given them,
but for the space around them. -/
def turnTexts (messages : List PromptMessage) : List Text :=
  ((messages.map PromptMessage.cString).filter PromptMessage.isTurn).map fun m => (trimString m.content).toList

theorem Shown.inOrder (h : Shown chat written) :
    InOrder ((chat.filter PromptMessage.isTurn).map fun m => (trimString m.content).toList) (writtenText written) :=
  inOrder_flatten (fun _ _ hms => hms.isInfix) h

def PromptMessage.isSystem (m : PromptMessage) : Bool := m.role == "system"

def PromptMessage.manualText (m : PromptMessage) : Text := (manualTurn m.role m.content).toList

theorem toList_foldl_manualTurn (formatted : String) (messages : List PromptMessage) :
    (messages.foldl (fun formatted m =>
      if m.role == "system" then formatted else formatted ++ manualTurn m.role m.content) formatted).toList =
      formatted.toList ++ (messages.filter fun m => !m.isSystem).flatMap PromptMessage.manualText := by
  induction messages generalizing formatted with
  | nil => exact (List.append_nil _).symm
  | cons m messages ih =>
    rw [List.foldl_cons, ih, List.filter_cons]
    cases hm : m.role == "system" with
    | true => simp [PromptMessage.isSystem, hm]
    | false => simp [PromptMessage.isSystem, hm, PromptMessage.manualText, List.append_assoc]

/-- The system's turn, if there is any. -/
def systemTurn (messages : List PromptMessage) : String :=
  let systemPrompt := ((messages.find? fun m => m.role == "system").map PromptMessage.content).getD ""
  if systemPrompt.isEmpty then "" else manualTurn "system" systemPrompt

theorem toList_applyManualTemplate (messages : List PromptMessage) :
    (applyManualTemplate messages).toList = (systemTurn messages).toList ++
      ((messages.filter fun m => !m.isSystem).flatMap PromptMessage.manualText ++
        (imStart ++ "assistant\n").toList) := by
  rw [applyManualTemplate, String.append_assoc, String.toList_append, toList_foldl_manualTurn, List.append_assoc]
  rfl

theorem content_infix_manualTurn (role content : String) : content.toList <:+: (manualTurn role content).toList := by
  refine ⟨imStart.toList ++ role.toList ++ "\n".toList, imEnd.toList ++ "\n".toList, ?_⟩
  simp only [manualTurn, String.toList_append, List.append_assoc]

theorem trim_cString_isInfix (s : String) : (trimString (cString s)).toList <:+: s.toList :=
  (trim_isInfix _).trans (cString_isPrefix s).isInfix

theorem cString_system (h : m.role = "system") : m.cString.role = "system" := by
  rw [PromptMessage.cString, h]
  exact cString_eq_self_iff.mpr (by decide)

/-- The turns are found among the messages that are not the system's. -/
theorem turns_cString (messages : List PromptMessage) :
    List.SublistForall₂ (fun turn m => turn = m.cString)
      ((messages.map PromptMessage.cString).filter PromptMessage.isTurn) (messages.filter fun m => !m.isSystem) := by
  induction messages with
  | nil => exact .nil
  | cons m messages ih =>
    rw [List.map_cons, List.filter_cons, List.filter_cons]
    cases hm : m.isSystem with
    | true =>
      have hturn := isTurn_system (cString_system (eq_of_beq hm))
      rw [hturn]
      exact ih
    | false =>
      cases m.cString.isTurn with
      | true => exact .cons rfl ih
      | false => exact .cons_right ih

theorem inOrder_applyManualTemplate (messages : List PromptMessage) :
    InOrder (turnTexts messages) (applyManualTemplate messages).toList := by
  rw [toList_applyManualTemplate]
  refine InOrder.append_right (InOrder.append_left (inOrder_flatten ?_ (turns_cString messages)) _) _
  rintro _ m rfl
  exact (trim_cString_isInfix m.content).trans (content_infix_manualTurn m.role m.content)

/-- Whatever the template, the prompt is returned whole, and holds the turns of
the conversation in their order. -/
theorem turns_shown (hfits : Fits model messages) :
    applyTemplate model copied messages = some (wholePrompt model copied messages) ∧
      InOrder (turnTexts messages) (wholePrompt model copied messages).toList := by
  refine ⟨applyTemplate_eq_wholePrompt copied hfits, ?_⟩
  rcases wholePrompt_cases model copied messages with h | ⟨tmpl, _, text, htext, h⟩
  · rw [h]
    exact inOrder_applyManualTemplate messages
  · obtain ⟨written, hw, rfl⟩ := Option.map_eq_some_iff.mp htext
    rw [h, String.toList_ofList]
    exact (shown_llmChatApplyTemplate hw).inOrder

/-- A prompt, and a template that Gemma's models carry the like of. -/
def briefPrompt : List PromptMessage := [⟨"system", "Be brief."⟩, ⟨"user", " Hello "⟩]
def turnMarker : String := "<start_of_turn>"

theorem fits_briefPrompt : Fits (some (some turnMarker)) briefPrompt where
  count := by decide +kernel
  rendered := by
    rintro tmpl ⟨⟩ text ⟨⟩
    decide +kernel

theorem turns_shown_briefPrompt :
    applyTemplate (some (some turnMarker)) true briefPrompt =
        some (wholePrompt (some (some turnMarker)) true briefPrompt) ∧
      InOrder (turnTexts briefPrompt) (wholePrompt (some (some turnMarker)) true briefPrompt).toList :=
  turns_shown fits_briefPrompt

example : applyTemplate (some (some turnMarker)) true briefPrompt =
    some "<start_of_turn>user\nBe brief.\n\nHello<end_of_turn>\n<start_of_turn>model\n" := by decide +kernel

end Turns

/-! ## The system's message -/

section System

variable {model : Option (Option String)} {tmpl : Option String} {copied : Bool} {m m' : PromptMessage}
  {chat : List PromptMessage} {text : Text}

theorem cString_turn (h : m.isTurn = true) : m.cString.isTurn = true := by
  have hnul : NulFree m.role := by
    rcases PromptMessage.isTurn_iff.mp h with hrole | hrole <;> rw [hrole] <;> decide
  rw [PromptMessage.isTurn, PromptMessage.cString, cString_eq_self_iff.mpr hnul]
  exact h

theorem system_infix_applyManualTemplate (hsystem : m.role = "system") :
    (trimString (cString m.content)).toList <:+: (applyManualTemplate (m :: chat)).toList := by
  have hturn : systemTurn (m :: chat) = if m.content.isEmpty then "" else manualTurn "system" m.content := by
    simp [systemTurn, hsystem]
  have hinfix : (trimString (cString m.content)).toList <:+: (systemTurn (m :: chat)).toList := by
    rw [hturn]
    split
    · rename_i hempty
      rw [String.isEmpty_iff.mp hempty]
      exact List.nil_infix
    · exact (trim_cString_isInfix m.content).trans (content_infix_manualTurn "system" m.content)
  rw [toList_applyManualTemplate]
  exact hinfix.trans (List.prefix_append _ _).isInfix

theorem rendered_yandex (htmpl : llmChatDetectTemplate (tmpl.getD "chatml") = .yandex) (hsystem : m.role = "system") :
    rendered tmpl ((m :: chat).map PromptMessage.cString) = rendered tmpl (chat.map PromptMessage.cString) := by
  rw [rendered, htmpl, List.map_cons, yandex_system (cString_system hsystem), rendered, htmpl]

theorem exists_rendered_yandex (htmpl : llmChatDetectTemplate (tmpl.getD "chatml") = .yandex)
    (chat : List PromptMessage) : ∃ text, rendered tmpl chat = some text := by
  rw [rendered, htmpl]
  exact ⟨_, rfl⟩

/-- The prompt holds the system's message, unless the template is Yandex's,
with which it is the same whatever that message says. -/
theorem system_shown (hsystem : m.role = "system") (hturns : ∀ t ∈ chat, t.isTurn = true)
    (huser : ∃ t ∈ chat, t.role = "user") (hfits : Fits model (m :: chat)) :
    ((∀ tmpl ∈ model, llmChatDetectTemplate (tmpl.getD "chatml") ≠ .yandex) →
      ∃ prompt, applyTemplate model copied (m :: chat) = some prompt ∧
        (trimString (cString m.content)).toList <:+: prompt.toList) ∧
    ∀ tmpl ∈ model, llmChatDetectTemplate (tmpl.getD "chatml") = .yandex → ∀ m', m'.role = "system" →
      Fits model (m' :: chat) → applyTemplate model true (m' :: chat) = applyTemplate model true (m :: chat) := by
  refine ⟨fun htmpl => ?_, ?_⟩
  · refine ⟨_, applyTemplate_eq_wholePrompt copied hfits, ?_⟩
    rcases wholePrompt_cases model copied (m :: chat) with h | ⟨tmpl, hmodel, text, htext, h⟩
    · rw [h]
      exact system_infix_applyManualTemplate hsystem
    · obtain ⟨written, hw, rfl⟩ := Option.map_eq_some_iff.mp htext
      rw [h, String.toList_ofList]
      refine holds_system (m := m.cString) (cString_system hsystem) (List.forall_mem_map.mpr fun t ht =>
        cString_turn (hturns t ht)) ?_ (htmpl tmpl hmodel) hw
      obtain ⟨t, ht, hrole⟩ := huser
      refine ⟨t.cString, List.mem_map_of_mem ht, ?_⟩
      rw [PromptMessage.cString, hrole]
      exact cString_eq_self_iff.mpr (by decide)
  · rintro tmpl hmodel htmpl m' hsystem' hfits'
    obtain rfl := Option.mem_def.mp hmodel
    obtain ⟨text, htext⟩ := exists_rendered_yandex htmpl (chat.map PromptMessage.cString)
    have hm := (rendered_yandex htmpl hsystem).trans htext
    have hm' := (rendered_yandex htmpl hsystem').trans htext
    rw [applyTemplate_eq_wholePrompt true hfits', applyTemplate_eq_wholePrompt true hfits,
      wholePrompt_of_rendered (List.cons_ne_nil _ _) hm', wholePrompt_of_rendered (List.cons_ne_nil _ _) hm]

theorem system_shown_briefPrompt :
    ((∀ tmpl ∈ some (some turnMarker), llmChatDetectTemplate (tmpl.getD "chatml") ≠ .yandex) →
      ∃ prompt, applyTemplate (some (some turnMarker)) true briefPrompt = some prompt ∧
        (trimString (cString "Be brief.")).toList <:+: prompt.toList) ∧
    ∀ tmpl ∈ some (some turnMarker), llmChatDetectTemplate (tmpl.getD "chatml") = .yandex → ∀ m', m'.role = "system" →
      Fits (some (some turnMarker)) [m', ⟨"user", " Hello "⟩] →
      applyTemplate (some (some turnMarker)) true [m', ⟨"user", " Hello "⟩] =
        applyTemplate (some (some turnMarker)) true briefPrompt :=
  system_shown (m := ⟨"system", "Be brief."⟩) rfl (by decide) ⟨_, List.mem_singleton_self _, rfl⟩ fits_briefPrompt

end System

end SynapsNotes.Chat
