import SynapsNotes.Chat.Prompt
import SynapsNotes.Foundation.Search
import SynapsNotes.Framework.InOrder
import SynapsNotes.Generation.Fragments

/-!
# Chat templates

llama.cpp does not run the template that a model file carries. It looks at
what the template holds to find out which one it is
(`llmChatDetectTemplate`), and writes the prompt with code of its own
(`llmChatApplyTemplate`): a loop over the messages that writes each of them by
its role. A loop is told here by what it writes to its stream, piece by piece.

No template leaves out what the user or the assistant has said
(`shown_llmChatApplyTemplate`), and all but one show the system's message that
a history begins with (`holds_system`).
-/

namespace SynapsNotes.Chat

open Framework Generation

/-! ## Detection -/

/-- `llm_chat_template`. -/
inductive LlmChatTemplate
  | chatml
  | llama2
  | llama2Sys
  | llama2SysBos
  | llama2SysStrip
  | mistralV1
  | mistralV3
  | mistralV3Tekken
  | mistralV7
  | mistralV7Tekken
  | phi3
  | phi4
  | falcon3
  | zephyr
  | monarch
  | gemma
  | orion
  | openchat
  | vicuna
  | vicunaOrca
  | deepseek
  | deepseek2
  | deepseek3
  | commandR
  | llama3
  | chatglm3
  | chatglm4
  | glmedge
  | minicpm
  | exaone3
  | exaone4
  | exaoneMoe
  | rwkvWorld
  | granite
  | gigachat
  | megrez
  | yandex
  | bailing
  | bailingThink
  | bailing2
  | llama4
  | smolvlm
  | dots1
  | hunyuanMoe
  | openaiMoe
  | hunyuanDense
  | kimiK2
  | seedOss
  | grok2
  | panguEmbed
  | solarOpen
  | unknown
  deriving DecidableEq

/-- `LLM_CHAT_TEMPLATES`. -/
def llmChatTemplates : List (String × LlmChatTemplate) :=
  [("chatml", .chatml), ("llama2", .llama2), ("llama2-sys", .llama2Sys), ("llama2-sys-bos", .llama2SysBos),
    ("llama2-sys-strip", .llama2SysStrip), ("mistral-v1", .mistralV1), ("mistral-v3", .mistralV3),
    ("mistral-v3-tekken", .mistralV3Tekken), ("mistral-v7", .mistralV7), ("mistral-v7-tekken", .mistralV7Tekken),
    ("phi3", .phi3), ("phi4", .phi4), ("falcon3", .falcon3), ("zephyr", .zephyr), ("monarch", .monarch),
    ("gemma", .gemma), ("orion", .orion), ("openchat", .openchat), ("vicuna", .vicuna),
    ("vicuna-orca", .vicunaOrca), ("deepseek", .deepseek), ("deepseek2", .deepseek2), ("deepseek3", .deepseek3),
    ("command-r", .commandR), ("llama3", .llama3), ("chatglm3", .chatglm3), ("chatglm4", .chatglm4),
    ("glmedge", .glmedge), ("minicpm", .minicpm), ("exaone3", .exaone3), ("exaone4", .exaone4),
    ("exaone-moe", .exaoneMoe), ("rwkv-world", .rwkvWorld), ("granite", .granite), ("gigachat", .gigachat),
    ("megrez", .megrez), ("yandex", .yandex), ("bailing", .bailing), ("bailing-think", .bailingThink),
    ("bailing2", .bailing2), ("llama4", .llama4), ("smolvlm", .smolvlm), ("hunyuan-moe", .hunyuanMoe),
    ("gpt-oss", .openaiMoe), ("hunyuan-dense", .hunyuanDense), ("kimi-k2", .kimiK2), ("seed_oss", .seedOss),
    ("grok-2", .grok2), ("pangu-embedded", .panguEmbed), ("solar-open", .solarOpen)]

/-- A template with `[INST]`. -/
def detectInst (tmplContains : String → Bool) : LlmChatTemplate :=
  if tmplContains "[SYSTEM_PROMPT]" then .mistralV7
  else if tmplContains "' [INST] ' + system_message" || tmplContains "[AVAILABLE_TOOLS]" then
    if tmplContains " [INST]" then .mistralV1
    else if tmplContains "\"[INST]\"" then .mistralV3Tekken
    else .mistralV3
  else if tmplContains "content.strip()" then .llama2SysStrip
  else if tmplContains "bos_token + '[INST]" then .llama2SysBos
  else if tmplContains "<<SYS>>" then .llama2Sys
  else .llama2

/-- `llm_chat_detect_template`. -/
def llmChatDetectTemplate (tmpl : String) : LlmChatTemplate :=
  match llmChatTemplates.lookup tmpl with
  | some template => template
  | none =>
    let tmplContains (needle : String) : Bool := Text.containsText needle.toList tmpl.toList
    if tmplContains "<|im_start|>" then
      if tmplContains "<|im_sep|>" then .phi4
      else if tmplContains "<end_of_utterance>" then .smolvlm
      else .chatml
    else if "mistral".toList.isPrefixOf tmpl.toList || tmplContains "[INST]" then detectInst tmplContains
    else if tmplContains "<|assistant|>" && tmplContains "<|end|>" then .phi3
    else if tmplContains "[gMASK]<sop>" then .chatglm4
    else if tmplContains "<|assistant|>" && tmplContains "<|user|>" then
      if tmplContains "<|tool_declare|>" then .exaoneMoe
      else if tmplContains "</s>" then .falcon3
      else .glmedge
    else if tmplContains "<|\x7b\x7b item['role'] \x7d\x7d|>" && tmplContains "<|begin_of_image|>" then .glmedge
    else if tmplContains "<|user|>" && tmplContains "<|endoftext|>" then .zephyr
    else if tmplContains "bos_token + message['role']" then .monarch
    else if tmplContains "<start_of_turn>" then .gemma
    else if tmplContains "'\\n\\nAssistant: ' + eos_token" then .orion
    else if tmplContains "GPT4 Correct " then .openchat
    else if tmplContains "USER: " && tmplContains "ASSISTANT: " then
      if tmplContains "SYSTEM: " then .vicunaOrca else .vicuna
    else if tmplContains "### Instruction:" && tmplContains "<|EOT|>" then .deepseek
    else if tmplContains "<|START_OF_TURN_TOKEN|>" && tmplContains "<|USER_TOKEN|>" then .commandR
    else if tmplContains "<|start_header_id|>" && tmplContains "<|end_header_id|>" then .llama3
    else if tmplContains "[gMASK]sop" then .chatglm3
    else if tmplContains "<用户>" then .minicpm
    else if tmplContains "'Assistant: ' + message['content'] + eos_token" then .deepseek2
    else if tmplContains "<｜Assistant｜>" && tmplContains "<｜User｜>" && tmplContains "<｜end▁of▁sentence｜>" then
      .deepseek3
    else if tmplContains "[|system|]" && tmplContains "[|assistant|]" && tmplContains "[|endofturn|]" then
      if tmplContains "[|tool|]" then .exaone4 else .exaone3
    else if tmplContains "rwkv-world" ||
        tmplContains "\x7b\x7b- 'User: ' + message['content']|trim + '\\n\\n' -\x7d\x7d" then .rwkvWorld
    else if tmplContains "<|start_of_role|>" then .granite
    else if tmplContains
        "message['role'] + additional_special_tokens[0] + message['content'] + additional_special_tokens[1]" then
      .gigachat
    else if tmplContains "<|role_start|>" then .megrez
    else if tmplContains " Ассистент:" then .yandex
    else if tmplContains "<role>ASSISTANT</role>" && tmplContains "'HUMAN'" then .bailing
    else if tmplContains "<role>ASSISTANT</role>" && tmplContains "\"HUMAN\"" && tmplContains "<think>" then
      .bailingThink
    else if tmplContains "<role>ASSISTANT</role>" && tmplContains "<role>HUMAN</role>" &&
        tmplContains "<|role_end|>" then .bailing2
    else if tmplContains "<|header_start|>" && tmplContains "<|header_end|>" then .llama4
    else if tmplContains "<|endofuserprompt|>" then .dots1
    else if tmplContains "<|extra_0|>" && tmplContains "<|extra_4|>" then .hunyuanMoe
    else if tmplContains "<|start|>" && tmplContains "<|channel|>" then .openaiMoe
    else if tmplContains "<｜hy_Assistant｜>" && tmplContains "<｜hy_place▁holder▁no▁3｜>" then .hunyuanDense
    else if tmplContains "<|im_assistant|>assistant<|im_middle|>" then .kimiK2
    else if tmplContains "<seed:bos>" then .seedOss
    else if tmplContains "'Assistant: '  + message['content'] + '<|separator|>" then .grok2
    else if tmplContains "[unused9]系统：[unused10]" then .panguEmbed
    else if tmplContains "<|begin|>" && tmplContains "<|end|>" && tmplContains "<|content|>" then .solarOpen
    else .unknown

/-! ## What a loop writes -/

/-- `trim` of a `std::string`. -/
def trimString (s : String) : String := String.ofList (Framework.trim isspace s.toList)

/-- `toupper`, in the C locale. -/
def toupper (c : Char) : Char := if 'a' ≤ c ∧ c ≤ 'z' then Char.ofNat (c.toNat - 32) else c

/-- What is written of a message. -/
inductive Piece
  | lit (s : String)
  | role
  | content
  | trimmedContent
  /-- The role with its first letter in upper case. -/
  | capitalRole
  /-- The role in upper case, the user's as `HUMAN`. -/
  | upperRole
  deriving DecidableEq

instance : Coe String Piece := ⟨.lit⟩

def Piece.render (m : PromptMessage) : Piece → String
  | lit s => s
  | role => m.role
  | content => m.content
  | trimmedContent => trimString m.content
  | capitalRole =>
    match m.role.toList with
    | [] => ""
    | c :: cs => String.ofList (toupper c :: cs)
  | upperRole => if m.role = "user" then "HUMAN" else String.ofList (m.role.toList.map toupper)

/-- A loop over the messages, by what it writes for a role. -/
def eachMessage (chat : List PromptMessage) (format : String → List Piece) : List String :=
  chat.flatMap fun m => (format m.role).map (Piece.render m)

/-- The same with the message's index. -/
def eachIndexed (chat : List PromptMessage) (format : Nat → String → List Piece) : List String :=
  (chat.mapIdx fun i m => (format i m.role).map (Piece.render m)).flatten

/-- `if (add_ass)`. -/
def whenAss (addAss : Bool) (s : String) : List String := if addAss then [s] else []

def hasSystem (chat : List PromptMessage) : Bool :=
  match chat with
  | [] => false
  | m :: _ => m.role == "system"

/-- The loop of the Mistral templates before v7. -/
def mistralLoop (leadingSpace trailingSpace : String) (trimAssistantMessage : Bool) :
    Bool → List PromptMessage → List String
  | _, [] => []
  | isInsideTurn, m :: chat =>
    (if isInsideTurn then [] else [leadingSpace, "[INST]", trailingSpace]) ++
      if m.role = "system" then
        m.content :: "\n\n" :: mistralLoop leadingSpace trailingSpace trimAssistantMessage true chat
      else if m.role = "user" then
        m.content :: leadingSpace :: "[/INST]" ::
          mistralLoop leadingSpace trailingSpace trimAssistantMessage true chat
      else
        trailingSpace :: (if trimAssistantMessage then trimString m.content else m.content) :: "</s>" ::
          mistralLoop leadingSpace trailingSpace trimAssistantMessage false chat

/-- The loop of the Llama 2 templates. -/
def llama2Loop (supportSystemMessage addBosInsideHistory stripMessage : Bool) :
    Bool → List PromptMessage → List String
  | _, [] => []
  | isInsideTurn, m :: chat =>
    let content := if stripMessage then trimString m.content else m.content
    (if isInsideTurn then [] else [if addBosInsideHistory then "<s>[INST] " else "[INST] "]) ++
      if m.role = "system" then
        (if supportSystemMessage then ["<<SYS>>\n", content, "\n<</SYS>>\n\n"] else [content, "\n"]) ++
          llama2Loop supportSystemMessage addBosInsideHistory stripMessage true chat
      else if m.role = "user" then
        content :: " [/INST]" :: llama2Loop supportSystemMessage addBosInsideHistory stripMessage true chat
      else content :: "</s>" :: llama2Loop supportSystemMessage addBosInsideHistory stripMessage false chat

/-- Gemma's loop merges the system's messages with the next one that is not
the model's. -/
def gemmaLoop : String → List PromptMessage → List String
  | _, [] => []
  | systemPrompt, m :: chat =>
    if m.role = "system" then gemmaLoop (systemPrompt ++ trimString m.content) chat
    else
      let role := if m.role = "assistant" then "model" else m.role
      "<start_of_turn>" :: role :: "\n" ::
        if !systemPrompt.isEmpty && role != "model" then
          systemPrompt :: "\n\n" :: trimString m.content :: "<end_of_turn>\n" :: gemmaLoop "" chat
        else trimString m.content :: "<end_of_turn>\n" :: gemmaLoop systemPrompt chat

/-- Orion's loop merges them with the next one of the user. -/
def orionLoop : String → List PromptMessage → List String
  | _, [] => []
  | systemPrompt, m :: chat =>
    if m.role = "system" then orionLoop (systemPrompt ++ m.content) chat
    else if m.role = "user" then
      "Human: " ::
        if !systemPrompt.isEmpty then
          systemPrompt :: "\n\n" :: m.content :: "\n\nAssistant: </s>" :: orionLoop "" chat
        else m.content :: "\n\nAssistant: </s>" :: orionLoop systemPrompt chat
    else m.content :: "</s>" :: orionLoop systemPrompt chat

/-- What a template writes for a role, where that depends on nothing else:
the loops of `llm_chat_apply_template` without a state. -/
def messageFormat (tmpl : LlmChatTemplate) (role : String) : List Piece :=
  match tmpl with
  | .chatml => ["<|im_start|>", .role, "\n", .content, "<|im_end|>\n"]
  | .mistralV7 =>
    if role = "system" then ["[SYSTEM_PROMPT]", " ", .content, "[/SYSTEM_PROMPT]"]
    else if role = "user" then ["[INST]", " ", .content, "[/INST]"]
    else [" ", .content, "</s>"]
  | .mistralV7Tekken =>
    if role = "system" then ["[SYSTEM_PROMPT]", "", .content, "[/SYSTEM_PROMPT]"]
    else if role = "user" then ["[INST]", "", .content, "[/INST]"]
    else ["", .content, "</s>"]
  | .phi3 => ["<|", .role, "|>\n", .content, "<|end|>\n"]
  | .phi4 => ["<|im_start|>", .role, "<|im_sep|>", .content, "<|im_end|>"]
  | .falcon3 => ["<|", .role, "|>\n", .content, "\n"]
  | .zephyr => ["<|", .role, "|>", "\n", .content, "<|endoftext|>\n"]
  | .openchat =>
    if role = "system" then [.content, "<|end_of_turn|>"]
    else ["GPT4 Correct ", .capitalRole, ": ", .content, "<|end_of_turn|>"]
  | .vicuna =>
    if role = "system" then [.content, "\n\n"]
    else if role = "user" then ["USER: ", .content, "\n"]
    else if role = "assistant" then ["ASSISTANT: ", .content, "</s>\n"]
    else []
  | .vicunaOrca =>
    if role = "system" then ["SYSTEM: ", .content, "\n"]
    else if role = "user" then ["USER: ", .content, "\n"]
    else if role = "assistant" then ["ASSISTANT: ", .content, "</s>\n"]
    else []
  | .deepseek =>
    if role = "system" then [.content]
    else if role = "user" then ["### Instruction:\n", .content, "\n"]
    else if role = "assistant" then ["### Response:\n", .content, "\n<|EOT|>\n"]
    else []
  | .commandR =>
    if role = "system" then ["<|START_OF_TURN_TOKEN|><|SYSTEM_TOKEN|>", .trimmedContent, "<|END_OF_TURN_TOKEN|>"]
    else if role = "user" then ["<|START_OF_TURN_TOKEN|><|USER_TOKEN|>", .trimmedContent, "<|END_OF_TURN_TOKEN|>"]
    else if role = "assistant" then
      ["<|START_OF_TURN_TOKEN|><|CHATBOT_TOKEN|>", .trimmedContent, "<|END_OF_TURN_TOKEN|>"]
    else []
  | .llama3 => ["<|start_header_id|>", .role, "<|end_header_id|>\n\n", .trimmedContent, "<|eot_id|>"]
  | .chatglm3 => ["<|", .role, "|>", "\n ", .content]
  | .chatglm4 => ["<|", .role, "|>", "\n", .content]
  | .glmedge => ["<|", .role, "|>", "\n", .content]
  | .minicpm =>
    if role = "user" then ["<用户>", .trimmedContent, "<AI>"] else [.trimmedContent]
  | .deepseek2 =>
    if role = "system" then [.content, "\n\n"]
    else if role = "user" then ["User: ", .content, "\n\n"]
    else if role = "assistant" then ["Assistant: ", .content, "<｜end▁of▁sentence｜>"]
    else []
  | .deepseek3 =>
    if role = "system" then [.content, "\n\n"]
    else if role = "user" then ["<｜User｜>", .content]
    else if role = "assistant" then ["<｜Assistant｜>", .content, "<｜end▁of▁sentence｜>"]
    else []
  | .exaone3 =>
    if role = "system" then ["[|system|]", .trimmedContent, "[|endofturn|]\n"]
    else if role = "user" then ["[|user|]", .trimmedContent, "\n"]
    else if role = "assistant" then ["[|assistant|]", .trimmedContent, "[|endofturn|]\n"]
    else []
  | .exaone4 =>
    if role = "system" then ["[|system|]", .trimmedContent, "[|endofturn|]\n"]
    else if role = "user" then ["[|user|]", .trimmedContent, "\n"]
    else if role = "assistant" then ["[|assistant|]", .trimmedContent, "[|endofturn|]\n"]
    else if role = "tool" then ["[|tool|]", .trimmedContent, "[|endofturn|]\n"]
    else []
  | .exaoneMoe =>
    if role = "system" then ["<|system|>\n", .trimmedContent, "<|endofturn|>\n"]
    else if role = "user" then ["<|user|>\n", .trimmedContent, "<|endofturn|>\n"]
    else if role = "assistant" then ["<|assistant|>\n", .trimmedContent, "<|endofturn|>\n"]
    else if role = "tool" then ["<|tool|>\n", .trimmedContent, "<|endofturn|>\n"]
    else []
  | .granite =>
    if role = "assistant_tool_call" then
      ["<|start_of_role|>", .role, "<|end_of_role|>", "<|tool_call|>", .content, "<|end_of_text|>\n"]
    else ["<|start_of_role|>", .role, "<|end_of_role|>", .content, "<|end_of_text|>\n"]
  | .gigachat =>
    if role = "user" then
      ["user<|role_sep|>", .content, "<|message_sep|>", "available functions<|role_sep|>[]<|message_sep|>"]
    else if role = "assistant" then ["assistant<|role_sep|>", .content, "<|message_sep|>"]
    else []
  | .megrez => ["<|role_start|>", .role, "<|role_end|>", .content, "<|turn_end|>"]
  | .yandex =>
    if role = "user" then [" Пользователь: ", .content, "\n\n"]
    else if role = "assistant" then [" Ассистент: ", .content, "\n\n"]
    else []
  | .bailing => ["<role>", .upperRole, "</role>", .content]
  | .bailingThink => ["<role>", .upperRole, "</role>", .content]
  | .bailing2 => ["<role>", .upperRole, "</role>", .content, "<|role_end|>"]
  | .llama4 => ["<|header_start|>", .role, "<|header_end|>\n\n", .trimmedContent, "<|eot|>"]
  | .smolvlm =>
    if role = "system" then [.content, "\n\n"]
    else if role = "user" then ["User: ", .content, "<end_of_utterance>\n"]
    else ["Assistant: ", .content, "<end_of_utterance>\n"]
  | .dots1 =>
    if role = "system" then ["<|system|>", .content, "<|endofsystem|>"]
    else if role = "user" then ["<|userprompt|>", .content, "<|endofuserprompt|>"]
    else ["<|response|>", .content, "<|endofresponse|>"]
  | .hunyuanMoe =>
    if role = "system" then ["<|startoftext|>", .content, "<|extra_4|>"]
    else if role = "assistant" then [.content, "<|eos|>"]
    else ["<|startoftext|>", .content, "<|extra_0|>"]
  | .openaiMoe =>
    ["<|start|>", .role, "<|message|>", .content, if role = "assistant" then "<|return|>" else "<|end|>"]
  | .kimiK2 =>
    [.lit (if role = "system" then "<|im_system|>system<|im_middle|>"
        else if role = "user" then "<|im_user|>user<|im_middle|>"
        else if role = "assistant" then "<|im_assistant|>assistant<|im_middle|>"
        else if role = "tool" then "<|im_system|>tool<|im_middle|>"
        else ""),
      .content, "<|im_end|>"]
  | .seedOss =>
    ["<seed:bos>", .role, "\n", if role = "assistant" then .trimmedContent else .content, "<seed:eos>"]
  | .grok2 =>
    if role = "system" then ["System: ", .trimmedContent, "<|separator|>\n\n"]
    else if role = "user" then ["Human: ", .trimmedContent, "<|separator|>\n\n"]
    else if role = "assistant" then ["Assistant: ", .content, "<|separator|>\n\n"]
    else []
  | .solarOpen => ["<|begin|>", .role, "<|content|>", .content, "<|end|>"]
  | _ => []

/-- Monarch writes `<s>` before all messages but the first. -/
def monarchFormat (i : Nat) (_ : String) : List Piece :=
  [if i = 0 then "" else "<s>", .role, "\n", .content, "</s>\n"]

/-- RWKV asks for the answer behind the last message, if that is the user's. -/
def rwkvWorldFormat (size i : Nat) (role : String) : List Piece :=
  if role = "system" then ["System: ", .trimmedContent, "\n\n"]
  else if role = "user" then
    ["User: ", .trimmedContent, "\n\n", if i + 1 = size then "Assistant:" else ""]
  else if role = "assistant" then ["Assistant: ", .trimmedContent, "\n\n"]
  else []

def hunyuanDenseFormat (i : Nat) (role : String) : List Piece :=
  let system : List Piece := if i = 0 ∧ role = "system" then [.content, "<｜hy_place▁holder▁no▁3｜>"] else []
  let turn : List Piece :=
    if role = "assistant" then ["<｜hy_Assistant｜>", .content, "<｜hy_place▁holder▁no▁2｜>"]
    else if role = "user" then ["<｜hy_User｜>", .content, "<｜hy_Assistant｜>"]
    else []
  system ++ turn

def panguEmbedFormat (i : Nat) (role : String) : List Piece :=
  let system : List Piece := if i = 0 ∧ role ≠ "system" then ["[unused9]系统：[unused10]"] else []
  let turn : List Piece :=
    if role = "system" then ["[unused9]系统：", .content, "[unused10]"]
    else if role = "user" then ["[unused9]用户：", .content, "[unused10]"]
    else if role = "assistant" then ["[unused9]助手：", .content, "[unused10]"]
    else if role = "tool" then ["[unused9]工具：", .content, "[unused10]"]
    else if role = "function" then ["[unused9]方法：", .content, "[unused10]"]
    else []
  system ++ turn

/-- `llm_chat_apply_template`: what is written to the stream, or nothing for
a template that is not supported. -/
def llmChatApplyTemplate (tmpl : LlmChatTemplate) (chat : List PromptMessage) (addAss : Bool) :
    Option (List String) :=
  match tmpl with
  | .unknown => none
  | .mistralV1 => some (mistralLoop " " " " false false chat)
  | .mistralV3 => some (mistralLoop "" " " true false chat)
  | .mistralV3Tekken => some (mistralLoop "" "" false false chat)
  | .llama2 => some ("[INST] " :: llama2Loop false false false true chat)
  | .llama2Sys => some ("[INST] " :: llama2Loop true false false true chat)
  | .llama2SysBos => some ("[INST] " :: llama2Loop true true false true chat)
  | .llama2SysStrip => some ("[INST] " :: llama2Loop true false true true chat)
  | .gemma => some (gemmaLoop "" chat ++ whenAss addAss "<start_of_turn>model\n")
  | .orion => some (orionLoop "" chat)
  | .monarch => some (eachIndexed chat monarchFormat ++ whenAss addAss "<s>assistant\n")
  | .rwkvWorld => some (eachIndexed chat (rwkvWorldFormat chat.length))
  | .hunyuanDense => some (eachIndexed chat hunyuanDenseFormat)
  | .panguEmbed => some (eachIndexed chat panguEmbedFormat ++ whenAss addAss "[unused9]助手：")
  | .gigachat =>
    let system := if hasSystem chat then chat.head?.toList.flatMap (fun m => [m.content, "<|message_sep|>"]) else []
    let rest := if hasSystem chat then chat.tail else chat
    some ("<s>" :: system ++ eachMessage rest (messageFormat .gigachat) ++
      whenAss addAss "assistant<|role_sep|>")
  | .bailing2 =>
    some ((if hasSystem chat then [] else ["<role>SYSTEM</role>detailed thinking off<|role_end|>"]) ++
      eachMessage chat (messageFormat .bailing2) ++ whenAss addAss "<role>ASSISTANT</role>")
  | .bailingThink =>
    some (eachMessage chat (messageFormat .bailingThink) ++ whenAss addAss "<role>ASSISTANT</role>" ++
      whenAss addAss "<think>")
  | .chatglm3 =>
    some ("[gMASK]" :: "sop" :: eachMessage chat (messageFormat .chatglm3) ++ whenAss addAss "<|assistant|>")
  | .chatglm4 =>
    some ("[gMASK]" :: "<sop>" :: eachMessage chat (messageFormat .chatglm4) ++ whenAss addAss "<|assistant|>\n")
  | .smolvlm => some ("<|im_start|>" :: eachMessage chat (messageFormat .smolvlm) ++ whenAss addAss "Assistant:")
  | .mistralV7 => some (eachMessage chat (messageFormat .mistralV7))
  | .mistralV7Tekken => some (eachMessage chat (messageFormat .mistralV7Tekken))
  | .minicpm => some (eachMessage chat (messageFormat .minicpm))
  | .hunyuanMoe => some (eachMessage chat (messageFormat .hunyuanMoe))
  | .chatml => some (eachMessage chat (messageFormat .chatml) ++ whenAss addAss "<|im_start|>assistant\n")
  | .phi3 => some (eachMessage chat (messageFormat .phi3) ++ whenAss addAss "<|assistant|>\n")
  | .phi4 => some (eachMessage chat (messageFormat .phi4) ++ whenAss addAss "<|im_start|>assistant<|im_sep|>")
  | .falcon3 => some (eachMessage chat (messageFormat .falcon3) ++ whenAss addAss "<|assistant|>\n")
  | .zephyr => some (eachMessage chat (messageFormat .zephyr) ++ whenAss addAss "<|assistant|>\n")
  | .openchat => some (eachMessage chat (messageFormat .openchat) ++ whenAss addAss "GPT4 Correct Assistant:")
  | .vicuna => some (eachMessage chat (messageFormat .vicuna) ++ whenAss addAss "ASSISTANT:")
  | .vicunaOrca => some (eachMessage chat (messageFormat .vicunaOrca) ++ whenAss addAss "ASSISTANT:")
  | .deepseek => some (eachMessage chat (messageFormat .deepseek) ++ whenAss addAss "### Response:\n")
  | .commandR =>
    some (eachMessage chat (messageFormat .commandR) ++ whenAss addAss "<|START_OF_TURN_TOKEN|><|CHATBOT_TOKEN|>")
  | .llama3 =>
    some (eachMessage chat (messageFormat .llama3) ++
      whenAss addAss "<|start_header_id|>assistant<|end_header_id|>\n\n")
  | .glmedge => some (eachMessage chat (messageFormat .glmedge) ++ whenAss addAss "<|assistant|>")
  | .deepseek2 => some (eachMessage chat (messageFormat .deepseek2) ++ whenAss addAss "Assistant:")
  | .deepseek3 => some (eachMessage chat (messageFormat .deepseek3) ++ whenAss addAss "<｜Assistant｜>")
  | .exaone3 => some (eachMessage chat (messageFormat .exaone3) ++ whenAss addAss "[|assistant|]")
  | .exaone4 => some (eachMessage chat (messageFormat .exaone4) ++ whenAss addAss "[|assistant|]")
  | .exaoneMoe => some (eachMessage chat (messageFormat .exaoneMoe) ++ whenAss addAss "<|assistant|>\n")
  | .granite =>
    some (eachMessage chat (messageFormat .granite) ++ whenAss addAss "<|start_of_role|>assistant<|end_of_role|>")
  | .megrez => some (eachMessage chat (messageFormat .megrez) ++ whenAss addAss "<|role_start|>assistant<|role_end|>")
  | .yandex => some (eachMessage chat (messageFormat .yandex) ++ whenAss addAss " Ассистент:[SEP]")
  | .bailing => some (eachMessage chat (messageFormat .bailing) ++ whenAss addAss "<role>ASSISTANT</role>")
  | .llama4 =>
    some (eachMessage chat (messageFormat .llama4) ++ whenAss addAss "<|header_start|>assistant<|header_end|>\n\n")
  | .dots1 => some (eachMessage chat (messageFormat .dots1) ++ whenAss addAss "<|response|>")
  | .openaiMoe => some (eachMessage chat (messageFormat .openaiMoe) ++ whenAss addAss "<|start|>assistant")
  | .kimiK2 =>
    some (eachMessage chat (messageFormat .kimiK2) ++ whenAss addAss "<|im_assistant|>assistant<|im_middle|>")
  | .seedOss => some (eachMessage chat (messageFormat .seedOss) ++ whenAss addAss "<seed:bos>assistant\n")
  | .grok2 => some (eachMessage chat (messageFormat .grok2) ++ whenAss addAss "Assistant:")
  | .solarOpen => some (eachMessage chat (messageFormat .solarOpen) ++ whenAss addAss "<|begin|>assistant")

/-! ## What is shown of the conversation -/

/-- A message of the conversation. -/
def PromptMessage.isTurn (m : PromptMessage) : Bool := m.role == "user" || m.role == "assistant"

/-- The content of a message, but perhaps for the space at its ends. -/
def IsContent (m : PromptMessage) (s : String) : Prop := s = m.content ∨ s = trimString m.content

/-- The conversation is among what is written, each message once and in their
order. -/
def Shown (chat : List PromptMessage) (written : List String) : Prop :=
  List.SublistForall₂ IsContent (chat.filter PromptMessage.isTurn) written

/-- The content is among the pieces. -/
def HasContent (pieces : List Piece) : Prop := .content ∈ pieces ∨ .trimmedContent ∈ pieces

instance instDecidableHasContent (pieces : List Piece) : Decidable (HasContent pieces) :=
  inferInstanceAs (Decidable (_ ∨ _))

section Shown

variable {m : PromptMessage} {chat : List PromptMessage} {written w : List String} {pieces : List Piece}

theorem PromptMessage.isTurn_iff : m.isTurn = true ↔ m.role = "user" ∨ m.role = "assistant" := by
  simp [PromptMessage.isTurn]

theorem HasContent.exists_isContent (h : HasContent pieces) (m : PromptMessage) :
    ∃ s ∈ pieces.map (Piece.render m), IsContent m s := by
  rcases h with h | h
  · exact ⟨_, List.mem_map_of_mem h, .inl rfl⟩
  · exact ⟨_, List.mem_map_of_mem h, .inr rfl⟩

theorem Shown.cons_of_turn (h : Shown chat written) (hs : ∃ s ∈ w, IsContent m s) :
    Shown (m :: chat) (w ++ written) := by
  cases hm : m.isTurn with
  | true =>
    rw [Shown, List.filter_cons_of_pos hm]
    exact sublistForall₂_cons_append hs h
  | false =>
    rw [Shown, List.filter_cons_of_neg (by rw [hm]; exact Bool.false_ne_true)]
    exact sublistForall₂_append_right h w

theorem Shown.cons_of_not_turn (h : Shown chat written) (hm : m.isTurn = false) (w : List String) :
    Shown (m :: chat) (w ++ written) := by
  rw [Shown, List.filter_cons_of_neg (by rw [hm]; exact Bool.false_ne_true)]
  exact sublistForall₂_append_right h w

theorem Shown.append_left (h : Shown chat written) (w : List String) : Shown chat (written ++ w) :=
  sublistForall₂_append_left h w

theorem Shown.append_right (h : Shown chat written) (w : List String) : Shown chat (w ++ written) :=
  sublistForall₂_append_right h w

/-- A message is written by what its role is. -/
theorem Shown.cons_format {f : String → List Piece} (h : Shown chat written)
    (huser : HasContent (f "user")) (hassistant : HasContent (f "assistant")) (m : PromptMessage) :
    Shown (m :: chat) ((f m.role).map (Piece.render m) ++ written) := by
  cases hm : m.isTurn with
  | true =>
    refine h.cons_of_turn (HasContent.exists_isContent ?_ m)
    rcases PromptMessage.isTurn_iff.mp hm with hrole | hrole
    · rwa [hrole]
    · rwa [hrole]
  | false => exact h.cons_of_not_turn hm _

theorem shown_nil : Shown [] written := .nil

theorem shown_eachMessage {f : String → List Piece} (huser : HasContent (f "user"))
    (hassistant : HasContent (f "assistant")) (chat : List PromptMessage) : Shown chat (eachMessage chat f) := by
  induction chat with
  | nil => exact shown_nil
  | cons m chat ih => exact ih.cons_format huser hassistant m

theorem shown_eachIndexed {f : Nat → String → List Piece} (huser : ∀ i, HasContent (f i "user"))
    (hassistant : ∀ i, HasContent (f i "assistant")) (chat : List PromptMessage) :
    Shown chat (eachIndexed chat f) := by
  induction chat generalizing f with
  | nil => exact shown_nil
  | cons m chat ih =>
    have hrest := ih (f := fun i => f (i + 1)) (fun i => huser (i + 1)) fun i => hassistant (i + 1)
    rw [eachIndexed, List.mapIdx_cons, List.flatten_cons]
    exact hrest.cons_format (f := f 0) (huser 0) (hassistant 0) m

theorem isTurn_system (h : m.role = "system") : m.isTurn = false := by
  rw [PromptMessage.isTurn, h]
  rfl

theorem shown_mistralLoop (leading trailing : String) (trimAssistant isInsideTurn : Bool) (chat : List PromptMessage) :
    Shown chat (mistralLoop leading trailing trimAssistant isInsideTurn chat) := by
  induction chat generalizing isInsideTurn with
  | nil => exact shown_nil
  | cons m chat ih =>
    rw [mistralLoop]
    refine Shown.append_right ?_ _
    split
    · exact (ih true).cons_of_turn (w := [m.content, "\n\n"]) ⟨_, List.mem_cons_self, .inl rfl⟩
    · split
      · exact (ih true).cons_of_turn (w := [m.content, leading, "[/INST]"]) ⟨_, List.mem_cons_self, .inl rfl⟩
      · refine (ih false).cons_of_turn
          (w := [trailing, if trimAssistant then trimString m.content else m.content, "</s>"])
          ⟨_, List.mem_cons_of_mem _ List.mem_cons_self, ?_⟩
        cases trimAssistant with
        | false => exact .inl rfl
        | true => exact .inr rfl

theorem isContent_strip (stripMessage : Bool) (m : PromptMessage) :
    IsContent m (if stripMessage then trimString m.content else m.content) := by
  cases stripMessage with
  | false => exact .inl rfl
  | true => exact .inr rfl

theorem shown_llama2Loop (supportSystem addBos strip isInsideTurn : Bool) (chat : List PromptMessage) :
    Shown chat (llama2Loop supportSystem addBos strip isInsideTurn chat) := by
  induction chat generalizing isInsideTurn with
  | nil => exact shown_nil
  | cons m chat ih =>
    have hcontent := isContent_strip strip m
    rw [llama2Loop]
    refine Shown.append_right ?_ _
    split
    · refine (ih true).cons_of_turn ?_
      cases supportSystem with
      | false => exact ⟨_, List.mem_cons_self, hcontent⟩
      | true => exact ⟨_, List.mem_cons_of_mem _ List.mem_cons_self, hcontent⟩
    · split
      · exact (ih true).cons_of_turn (w := [_, " [/INST]"]) ⟨_, List.mem_cons_self, hcontent⟩
      · exact (ih false).cons_of_turn (w := [_, "</s>"]) ⟨_, List.mem_cons_self, hcontent⟩

theorem shown_gemmaLoop (systemPrompt : String) (chat : List PromptMessage) :
    Shown chat (gemmaLoop systemPrompt chat) := by
  induction chat generalizing systemPrompt with
  | nil => exact shown_nil
  | cons m chat ih =>
    rw [gemmaLoop]
    split
    · rename_i hsystem
      exact (ih _).cons_of_not_turn (isTurn_system hsystem) []
    · have hturn : ∀ s, Shown (m :: chat) (trimString m.content :: "<end_of_turn>\n" :: gemmaLoop s chat) := fun s =>
        (ih s).cons_of_turn (w := [trimString m.content, "<end_of_turn>\n"]) ⟨_, List.mem_cons_self, .inr rfl⟩
      have hrest : ∀ b : Bool, Shown (m :: chat) (if b then
          systemPrompt :: "\n\n" :: trimString m.content :: "<end_of_turn>\n" :: gemmaLoop "" chat
        else trimString m.content :: "<end_of_turn>\n" :: gemmaLoop systemPrompt chat) := fun b => by
        cases b with
        | true => exact (hturn "").append_right [systemPrompt, "\n\n"]
        | false => exact hturn systemPrompt
      exact (hrest _).append_right ["<start_of_turn>", _, "\n"]

theorem shown_orionLoop (systemPrompt : String) (chat : List PromptMessage) :
    Shown chat (orionLoop systemPrompt chat) := by
  induction chat generalizing systemPrompt with
  | nil => exact shown_nil
  | cons m chat ih =>
    have hturn : ∀ behind s, Shown (m :: chat) (m.content :: behind :: orionLoop s chat) := fun behind s =>
      (ih s).cons_of_turn (w := [m.content, behind]) ⟨_, List.mem_cons_self, .inl rfl⟩
    rw [orionLoop]
    split
    · rename_i hsystem
      exact (ih _).cons_of_not_turn (isTurn_system hsystem) []
    · split
      · have hrest : ∀ b : Bool, Shown (m :: chat) (if b then
            systemPrompt :: "\n\n" :: m.content :: "\n\nAssistant: </s>" :: orionLoop "" chat
          else m.content :: "\n\nAssistant: </s>" :: orionLoop systemPrompt chat) := fun b => by
          cases b with
          | true => exact (hturn _ "").append_right [systemPrompt, "\n\n"]
          | false => exact hturn _ systemPrompt
        exact (hrest _).append_right ["Human: "]
      · exact hturn _ systemPrompt

/-- Where the first message is the system's, the others are the
conversation. -/
theorem shown_tail (h : Shown (if hasSystem chat then chat.tail else chat) written) : Shown chat written := by
  cases chat with
  | nil => exact h
  | cons m chat =>
    cases hsystem : hasSystem (m :: chat) with
    | false =>
      rw [hsystem, if_neg Bool.false_ne_true] at h
      exact h
    | true =>
      rw [hsystem, if_pos rfl, List.tail_cons] at h
      exact h.cons_of_not_turn (isTurn_system (eq_of_beq hsystem)) []

/-- No template leaves out a message of the conversation, or changes their
order. -/
theorem shown_llmChatApplyTemplate {tmpl : LlmChatTemplate} {addAss : Bool}
    (h : llmChatApplyTemplate tmpl chat addAss = some written) : Shown chat written := by
  cases tmpl <;> simp only [llmChatApplyTemplate, Option.some.injEq, reduceCtorEq] at h <;> subst h
  case mistralV1 | mistralV3 | mistralV3Tekken => exact shown_mistralLoop _ _ _ _ _
  case llama2 | llama2Sys | llama2SysBos | llama2SysStrip =>
    exact (shown_llama2Loop _ _ _ _ _).append_right ["[INST] "]
  case gemma => exact (shown_gemmaLoop "" chat).append_left _
  case orion => exact shown_orionLoop "" chat
  case monarch =>
    exact (shown_eachIndexed (fun _ => by simp [HasContent, monarchFormat])
      (fun _ => by simp [HasContent, monarchFormat]) chat).append_left _
  case rwkvWorld =>
    exact shown_eachIndexed (f := rwkvWorldFormat chat.length) (fun _ => by simp [HasContent, rwkvWorldFormat])
      (fun _ => by simp [HasContent, rwkvWorldFormat]) chat
  case hunyuanDense =>
    exact shown_eachIndexed (fun _ => by simp [HasContent, hunyuanDenseFormat])
      (fun _ => by simp [HasContent, hunyuanDenseFormat]) chat
  case panguEmbed =>
    exact (shown_eachIndexed (fun _ => by simp [HasContent, panguEmbedFormat])
      (fun _ => by simp [HasContent, panguEmbedFormat]) chat).append_left _
  case gigachat =>
    refine Shown.append_left (Shown.append_right ?_ _) _
    exact shown_tail (shown_eachMessage (by decide) (by decide) _)
  case bailing2 =>
    exact ((shown_eachMessage (by decide) (by decide) chat).append_right _).append_left _
  case bailingThink => exact ((shown_eachMessage (by decide) (by decide) chat).append_left _).append_left _
  case chatglm3 =>
    exact ((shown_eachMessage (by decide) (by decide) chat).append_right ["[gMASK]", "sop"]).append_left _
  case chatglm4 =>
    exact ((shown_eachMessage (by decide) (by decide) chat).append_right ["[gMASK]", "<sop>"]).append_left _
  case smolvlm => exact ((shown_eachMessage (by decide) (by decide) chat).append_right ["<|im_start|>"]).append_left _
  case mistralV7 | mistralV7Tekken | minicpm | hunyuanMoe => exact shown_eachMessage (by decide) (by decide) chat
  all_goals exact (shown_eachMessage (by decide) (by decide) chat).append_left _

end Shown

/-! ## What is shown of the system's message -/

section System

variable {m : PromptMessage} {chat : List PromptMessage} {written : List String}

/-- The text of what is written. -/
def writtenText (written : List String) : Text := written.flatMap String.toList

theorem trim_isInfix (s : String) : (trimString s).toList <:+: s.toList := by
  rw [trimString, String.toList_ofList, Framework.trim]
  exact ((List.rdropWhile_prefix _ _).isInfix).trans (List.dropWhile_suffix _).isInfix

theorem IsContent.isInfix {s : String} (h : IsContent m s) : (trimString m.content).toList <:+: s.toList := by
  rcases h with rfl | rfl
  · exact trim_isInfix _
  · exact List.infix_rfl

theorem infix_writtenText {s : String} (hs : s ∈ written) : s.toList <:+: writtenText written := by
  obtain ⟨l, r, rfl⟩ := List.append_of_mem hs
  rw [writtenText, List.flatMap_append, List.flatMap_cons]
  exact ⟨_, _, List.append_assoc _ _ _⟩

/-- A message is shown, but perhaps for the space at its ends. -/
def Holds (m : PromptMessage) (written : List String) : Prop := (trimString m.content).toList <:+: writtenText written

theorem holds_of_mem {s : String} (hs : s ∈ written) (h : IsContent m s) : Holds m written :=
  h.isInfix.trans (infix_writtenText hs)

theorem trim_isEmpty {s : String} (h : s.isEmpty = true) : (trimString s).isEmpty = true := by
  rw [String.isEmpty_iff] at h
  rw [h]
  rfl

theorem holds_of_trim_empty (h : (trimString m.content).isEmpty = true) : Holds m written := by
  rw [Holds, String.isEmpty_iff.mp h]
  exact List.nil_infix

theorem Holds.append_left (h : Holds m written) (w : List String) : Holds m (written ++ w) := by
  rw [Holds, writtenText, List.flatMap_append]
  exact h.trans (List.prefix_append _ _).isInfix

theorem Holds.append_right (h : Holds m written) (w : List String) : Holds m (w ++ written) := by
  rw [Holds, writtenText, List.flatMap_append]
  exact h.trans (List.suffix_append _ _).isInfix

theorem holds_eachMessage {f : String → List Piece} (h : HasContent (f m.role)) (chat : List PromptMessage) :
    Holds m (eachMessage (m :: chat) f) := by
  obtain ⟨s, hs, hms⟩ := h.exists_isContent m
  exact holds_of_mem (List.mem_append_left _ hs) hms

theorem holds_eachIndexed {f : Nat → String → List Piece} (h : HasContent (f 0 m.role)) (chat : List PromptMessage) :
    Holds m (eachIndexed (m :: chat) f) := by
  obtain ⟨s, hs, hms⟩ := h.exists_isContent m
  rw [eachIndexed, List.mapIdx_cons, List.flatten_cons]
  exact (holds_of_mem hs hms).append_left _

theorem user_of_cons (hrole : m.role = "assistant") (h : ∃ m' ∈ m :: chat, m'.role = "user") :
    ∃ m' ∈ chat, m'.role = "user" := by
  obtain ⟨m', hm', hrole'⟩ := h
  rcases List.mem_cons.mp hm' with rfl | hm'
  · rw [hrole] at hrole'
    exact absurd hrole' (by decide)
  · exact ⟨m', hm', hrole'⟩

/-- What Gemma's loop has put off is written with the user's next message. -/
theorem mem_gemmaLoop {systemPrompt : String} (h0 : systemPrompt.isEmpty = false)
    (hturns : ∀ m ∈ chat, m.isTurn = true) (huser : ∃ m ∈ chat, m.role = "user") :
    systemPrompt ∈ gemmaLoop systemPrompt chat := by
  induction chat with
  | nil =>
    obtain ⟨m, hm, -⟩ := huser
    cases hm
  | cons m chat ih =>
    obtain ⟨hm, hturns⟩ := List.forall_mem_cons.mp hturns
    rw [gemmaLoop]
    rcases PromptMessage.isTurn_iff.mp hm with hrole | hrole
    · simp [hrole, h0]
    · simp [hrole, ih hturns (user_of_cons hrole huser)]

theorem mem_orionLoop {systemPrompt : String} (h0 : systemPrompt.isEmpty = false)
    (hturns : ∀ m ∈ chat, m.isTurn = true) (huser : ∃ m ∈ chat, m.role = "user") :
    systemPrompt ∈ orionLoop systemPrompt chat := by
  induction chat with
  | nil =>
    obtain ⟨m, hm, -⟩ := huser
    cases hm
  | cons m chat ih =>
    obtain ⟨hm, hturns⟩ := List.forall_mem_cons.mp hturns
    rw [orionLoop]
    rcases PromptMessage.isTurn_iff.mp hm with hrole | hrole
    · simp [hrole, h0]
    · simp [hrole, ih hturns (user_of_cons hrole huser)]

/-- All templates but Yandex's show the system's message that a conversation
begins with. -/
theorem holds_system {tmpl : LlmChatTemplate} {addAss : Bool} (hsystem : m.role = "system")
    (hturns : ∀ m ∈ chat, m.isTurn = true) (huser : ∃ m ∈ chat, m.role = "user") (htmpl : tmpl ≠ .yandex)
    (h : llmChatApplyTemplate tmpl (m :: chat) addAss = some written) : Holds m written := by
  cases tmpl <;> simp only [llmChatApplyTemplate, Option.some.injEq, reduceCtorEq, ne_eq, not_true] at h htmpl <;>
    subst h
  case mistralV1 | mistralV3 | mistralV3Tekken =>
    refine holds_of_mem (s := m.content) ?_ (.inl rfl)
    simp [mistralLoop, hsystem]
  case llama2 | llama2Sys | llama2SysBos =>
    refine holds_of_mem (s := m.content) ?_ (.inl rfl)
    simp [llama2Loop, hsystem]
  case llama2SysStrip =>
    refine holds_of_mem (s := trimString m.content) ?_ (.inr rfl)
    simp [llama2Loop, hsystem]
  case gemma =>
    rw [gemmaLoop, if_pos hsystem, String.empty_append]
    cases h0 : (trimString m.content).isEmpty with
    | true => exact holds_of_trim_empty h0
    | false => exact (holds_of_mem (mem_gemmaLoop h0 hturns huser) (.inr rfl)).append_left _
  case orion =>
    rw [orionLoop, if_pos hsystem, String.empty_append]
    cases h0 : m.content.isEmpty with
    | true => exact holds_of_trim_empty (trim_isEmpty h0)
    | false => exact holds_of_mem (mem_orionLoop h0 hturns huser) (.inl rfl)
  case gigachat =>
    refine holds_of_mem (s := m.content) ?_ (.inl rfl)
    simp [hasSystem, hsystem]
  case monarch =>
    exact (holds_eachIndexed (by simp [HasContent, monarchFormat]) chat).append_left _
  case rwkvWorld => exact holds_eachIndexed (by simp [HasContent, rwkvWorldFormat, hsystem]) chat
  case hunyuanDense => exact holds_eachIndexed (by simp [HasContent, hunyuanDenseFormat, hsystem]) chat
  case panguEmbed =>
    exact (holds_eachIndexed (by simp [HasContent, panguEmbedFormat, hsystem]) chat).append_left _
  case bailing2 => exact ((holds_eachMessage (by rw [hsystem]; decide) chat).append_right _).append_left _
  case bailingThink => exact ((holds_eachMessage (by rw [hsystem]; decide) chat).append_left _).append_left _
  case chatglm3 =>
    exact ((holds_eachMessage (by rw [hsystem]; decide) chat).append_right ["[gMASK]", "sop"]).append_left _
  case chatglm4 =>
    exact ((holds_eachMessage (by rw [hsystem]; decide) chat).append_right ["[gMASK]", "<sop>"]).append_left _
  case smolvlm =>
    exact ((holds_eachMessage (by rw [hsystem]; decide) chat).append_right ["<|im_start|>"]).append_left _
  case mistralV7 | mistralV7Tekken | minicpm | hunyuanMoe =>
    exact holds_eachMessage (by rw [hsystem]; decide) chat
  all_goals exact (holds_eachMessage (by rw [hsystem]; decide) chat).append_left _

/-- Yandex's writes the same whatever the system's message is. -/
theorem yandex_system (hsystem : m.role = "system") (addAss : Bool) :
    llmChatApplyTemplate .yandex (m :: chat) addAss = llmChatApplyTemplate .yandex chat addAss := by
  rw [llmChatApplyTemplate, llmChatApplyTemplate, eachMessage, List.flatMap_cons, hsystem]
  rfl

end System

/-! ## C strings -/

section NulFree

variable {m : PromptMessage} {chat : List PromptMessage} {written : List String} {s : String}

/-- The text may be the text of a C string. -/
def NulFree (s : String) : Prop := '\x00' ∉ s.toList

instance instDecidableNulFree (s : String) : Decidable (NulFree s) := inferInstanceAs (Decidable (_ ∉ _))

/-- What is written of a text of the source, not of a message. -/
def Piece.literal : Piece → String
  | lit s => s
  | _ => ""

/-- The message's role and content are C strings. -/
structure PromptMessage.NulFree (m : PromptMessage) : Prop where
  role : Chat.NulFree m.role
  content : Chat.NulFree m.content

theorem nulFree_trim (h : NulFree s) : NulFree (trimString s) := fun hmem => h ((trim_isInfix s).subset hmem)

theorem nulFree_append {s' : String} (h : NulFree s) (h' : NulFree s') : NulFree (s ++ s') := by
  rw [NulFree, String.toList_append, List.mem_append, not_or]
  exact ⟨h, h'⟩

theorem toupper_ne_nul {c : Char} (h : c ≠ '\x00') : toupper c ≠ '\x00' := by
  intro heq
  rw [toupper] at heq
  split at heq
  · rename_i hlower
    have hge : 97 ≤ c.toNat := hlower.1
    have hle : c.toNat ≤ 122 := hlower.2
    have hupper : ∀ n < 26, Char.ofNat (65 + n) ≠ '\x00' := by decide
    rw [show c.toNat - 32 = 65 + (c.toNat - 97) by omega] at heq
    exact hupper _ (by omega) heq
  · exact h heq

theorem nulFree_render {p : Piece} (hm : m.NulFree) (hp : NulFree p.literal) : NulFree (p.render m) := by
  cases p with
  | lit s => exact hp
  | role => exact hm.role
  | content => exact hm.content
  | trimmedContent => exact nulFree_trim hm.content
  | capitalRole =>
    have hrole := hm.role
    rw [Piece.render]
    rw [NulFree] at hrole
    split
    · decide
    · rename_i c cs heq
      rw [heq, List.mem_cons, not_or] at hrole
      rw [NulFree, String.toList_ofList, List.mem_cons, not_or]
      exact ⟨(toupper_ne_nul (Ne.symm hrole.1)).symm, hrole.2⟩
  | upperRole =>
    rw [Piece.render]
    split
    · decide
    · rw [NulFree, String.toList_ofList, List.mem_map]
      rintro ⟨c, hc, heq⟩
      exact toupper_ne_nul (fun h => hm.role (h ▸ hc)) heq

theorem nulFree_messageFormat (tmpl : LlmChatTemplate) (role : String) :
    ∀ p ∈ messageFormat tmpl role, NulFree p.literal := by
  cases tmpl <;> rw [messageFormat] <;> (try split_ifs) <;> decide +kernel

theorem nulFree_eachMessage {f : String → List Piece} (hf : ∀ role, ∀ p ∈ f role, NulFree p.literal)
    (hchat : ∀ m ∈ chat, m.NulFree) : ∀ s ∈ eachMessage chat f, NulFree s := by
  intro s hs
  obtain ⟨m, hm, hs⟩ := List.mem_flatMap.mp hs
  obtain ⟨p, hp, rfl⟩ := List.mem_map.mp hs
  exact nulFree_render (hchat m hm) (hf _ p hp)

theorem nulFree_eachIndexed {f : Nat → String → List Piece} (hf : ∀ i role, ∀ p ∈ f i role, NulFree p.literal)
    (hchat : ∀ m ∈ chat, m.NulFree) : ∀ s ∈ eachIndexed chat f, NulFree s := by
  intro s hs
  obtain ⟨l, hl, hs⟩ := List.mem_flatten.mp hs
  obtain ⟨i, hi, rfl⟩ := List.mem_mapIdx.mp hl
  obtain ⟨p, hp, rfl⟩ := List.mem_map.mp hs
  exact nulFree_render (hchat _ (List.getElem_mem hi)) (hf _ _ p hp)

theorem nulFree_append_whenAss (h : ∀ w ∈ written, NulFree w) {addAss : Bool} (hs : NulFree s) :
    ∀ w ∈ written ++ whenAss addAss s, NulFree w := by
  refine List.forall_mem_append.mpr ⟨h, ?_⟩
  cases addAss with
  | false => exact List.forall_mem_nil _
  | true => exact List.forall_mem_singleton.mpr hs

theorem nulFree_strip (strip : Bool) (hm : m.NulFree) : NulFree (if strip then trimString m.content else m.content) := by
  cases strip with
  | false => exact hm.content
  | true => exact nulFree_trim hm.content

theorem nulFree_mistralLoop {leading trailing : String} (hleading : NulFree leading) (htrailing : NulFree trailing)
    (trimAssistant isInsideTurn : Bool) (hchat : ∀ m ∈ chat, m.NulFree) :
    ∀ s ∈ mistralLoop leading trailing trimAssistant isInsideTurn chat, NulFree s := by
  induction chat generalizing isInsideTurn with
  | nil => exact List.forall_mem_nil _
  | cons m chat ih =>
    obtain ⟨hm, hchat⟩ := List.forall_mem_cons.mp hchat
    have hlits : NulFree "[INST]" ∧ NulFree "[/INST]" ∧ NulFree "</s>" ∧ NulFree "\n\n" := by decide +kernel
    have hstrip := nulFree_strip trimAssistant hm
    have hcontent := hm.content
    rw [mistralLoop]
    refine List.forall_mem_append.mpr ⟨?_, ?_⟩
    · split
      · exact List.forall_mem_nil _
      · simp [hleading, htrailing, hlits]
    · have htrue := ih true hchat
      have hfalse := ih false hchat
      split_ifs <;> simp_all

theorem nulFree_llama2Loop (supportSystem addBos strip isInsideTurn : Bool) (hchat : ∀ m ∈ chat, m.NulFree) :
    ∀ s ∈ llama2Loop supportSystem addBos strip isInsideTurn chat, NulFree s := by
  induction chat generalizing isInsideTurn with
  | nil => exact List.forall_mem_nil _
  | cons m chat ih =>
    obtain ⟨hm, hchat⟩ := List.forall_mem_cons.mp hchat
    have hlits : NulFree "<<SYS>>\n" ∧ NulFree "\n<</SYS>>\n\n" ∧ NulFree "\n" ∧ NulFree " [/INST]" ∧
        NulFree "</s>" ∧ NulFree "<s>[INST] " ∧ NulFree "[INST] " := by decide +kernel
    have hstrip := nulFree_strip strip hm
    rw [llama2Loop]
    refine List.forall_mem_append.mpr ⟨?_, ?_⟩
    · split
      · exact List.forall_mem_nil _
      · cases addBos <;> simp [hlits]
    · have htrue := ih true hchat
      have hfalse := ih false hchat
      cases supportSystem <;> split_ifs <;> simp_all

theorem nulFree_gemmaLoop {systemPrompt : String} (hs : NulFree systemPrompt) (hchat : ∀ m ∈ chat, m.NulFree) :
    ∀ s ∈ gemmaLoop systemPrompt chat, NulFree s := by
  induction chat generalizing systemPrompt with
  | nil => exact List.forall_mem_nil _
  | cons m chat ih =>
    obtain ⟨hm, hchat⟩ := List.forall_mem_cons.mp hchat
    have hlits : NulFree "<start_of_turn>" ∧ NulFree "\n" ∧ NulFree "\n\n" ∧ NulFree "<end_of_turn>\n" ∧
        NulFree "model" ∧ NulFree "" := by decide +kernel
    have htrim := nulFree_trim hm.content
    have hrole := hm.role
    have hnext := ih hs hchat
    have hafter := ih hlits.2.2.2.2.2 hchat
    rw [gemmaLoop]
    split
    · exact ih (nulFree_append hs htrim) hchat
    · dsimp only
      split_ifs <;> simp_all

theorem nulFree_orionLoop {systemPrompt : String} (hs : NulFree systemPrompt) (hchat : ∀ m ∈ chat, m.NulFree) :
    ∀ s ∈ orionLoop systemPrompt chat, NulFree s := by
  induction chat generalizing systemPrompt with
  | nil => exact List.forall_mem_nil _
  | cons m chat ih =>
    obtain ⟨hm, hchat⟩ := List.forall_mem_cons.mp hchat
    have hlits : NulFree "Human: " ∧ NulFree "\n\n" ∧ NulFree "\n\nAssistant: </s>" ∧ NulFree "</s>" ∧
        NulFree "" := by decide +kernel
    have hcontent := hm.content
    have hnext := ih hs hchat
    have hafter := ih hlits.2.2.2.2 hchat
    rw [orionLoop]
    split
    · exact ih (nulFree_append hs hcontent) hchat
    · split_ifs <;> simp_all

/-- What is written of C strings can be read as one. -/
theorem nulFree_llmChatApplyTemplate {tmpl : LlmChatTemplate} {addAss : Bool} (hchat : ∀ m ∈ chat, m.NulFree)
    (h : llmChatApplyTemplate tmpl chat addAss = some written) : ∀ s ∈ written, NulFree s := by
  have heach : ∀ t, ∀ s ∈ eachMessage chat (messageFormat t), NulFree s := fun t =>
    nulFree_eachMessage (nulFree_messageFormat t) hchat
  cases tmpl <;> simp only [llmChatApplyTemplate, Option.some.injEq, reduceCtorEq] at h <;> subst h
  case mistralV1 => exact nulFree_mistralLoop (by decide) (by decide) _ _ hchat
  case mistralV3 => exact nulFree_mistralLoop (by decide) (by decide) _ _ hchat
  case mistralV3Tekken => exact nulFree_mistralLoop (by decide) (by decide) _ _ hchat
  case llama2 | llama2Sys | llama2SysBos | llama2SysStrip =>
    exact List.forall_mem_cons.mpr ⟨by decide, nulFree_llama2Loop _ _ _ _ hchat⟩
  case gemma => exact nulFree_append_whenAss (nulFree_gemmaLoop (by decide) hchat) (by decide)
  case orion => exact nulFree_orionLoop (by decide) hchat
  case mistralV7 | mistralV7Tekken | minicpm | hunyuanMoe => exact heach _
  case monarch =>
    refine nulFree_append_whenAss (nulFree_eachIndexed (fun i role => ?_) hchat) (by decide)
    rw [monarchFormat]
    split_ifs <;> decide +kernel
  case rwkvWorld =>
    refine nulFree_eachIndexed (fun i role => ?_) hchat
    rw [rwkvWorldFormat]
    split_ifs <;> decide +kernel
  case hunyuanDense =>
    refine nulFree_eachIndexed (fun i role => ?_) hchat
    rw [hunyuanDenseFormat]
    split_ifs <;> decide +kernel
  case panguEmbed =>
    refine nulFree_append_whenAss (nulFree_eachIndexed (fun i role => ?_) hchat) (by decide)
    rw [panguEmbedFormat]
    split_ifs <;> decide +kernel
  case gigachat =>
    refine nulFree_append_whenAss (List.forall_mem_append.mpr ⟨List.forall_mem_cons.mpr ⟨by decide, ?_⟩,
      nulFree_eachMessage (nulFree_messageFormat _) ?_⟩) (by decide)
    · split
      · intro s hs
        obtain ⟨m, hm, hs⟩ := List.mem_flatMap.mp hs
        have hmem := List.mem_of_mem_head? (Option.mem_toList.mp hm)
        exact List.forall_mem_cons.mpr ⟨(hchat m hmem).content, List.forall_mem_singleton.mpr (by decide)⟩ s hs
      · exact List.forall_mem_nil _
    · split
      · exact fun m hm => hchat m (List.mem_of_mem_tail hm)
      · exact hchat
  case bailing2 =>
    refine nulFree_append_whenAss (List.forall_mem_append.mpr ⟨?_, heach _⟩) (by decide)
    split_ifs <;> decide +kernel
  case bailingThink => exact nulFree_append_whenAss (nulFree_append_whenAss (heach _) (by decide)) (by decide)
  case chatglm3 | chatglm4 =>
    exact nulFree_append_whenAss
      (List.forall_mem_cons.mpr ⟨by decide, List.forall_mem_cons.mpr ⟨by decide, heach _⟩⟩) (by decide)
  case smolvlm => exact nulFree_append_whenAss (List.forall_mem_cons.mpr ⟨by decide, heach _⟩) (by decide)
  all_goals exact nulFree_append_whenAss (heach _) (by decide +kernel)

end NulFree

end SynapsNotes.Chat
