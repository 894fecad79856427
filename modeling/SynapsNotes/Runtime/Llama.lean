import Mathlib.Logic.Function.Basic
import SynapsNotes.Data.Catalog

/-!
# The actor that holds the models

`LlamaContext` holds a chat model and an embedding model, each with its
context. A loaded model is known here by the catalog id of the file it was
loaded from, and an embedding carries the model and the text that it was
computed from; what the files and the library answer is a parameter of each
call.
-/

namespace SynapsNotes.Runtime

inductive Slot
  | chat
  | embedding
  deriving DecidableEq

instance {p : Slot → Prop} [DecidablePred p] : Decidable (∀ k, p k) :=
  decidable_of_iff (p .chat ∧ p .embedding)
    ⟨fun h k => match k with
      | .chat => h.1
      | .embedding => h.2,
    fun h => ⟨h .chat, h .embedding⟩⟩

def Slot.kind : Slot → ModelKind
  | chat => .chat
  | embedding => .embedding

inductive LlamaError
  | failedToLoadModel
  | failedToInitContext
  | decodeFailed
  | noEmbeddings
  | notLoaded
  | batchOverflow
  | ocrBridgeUnavailable
  | ocrVisionUnavailable
  | modelFileMissing
  | invalidModelFile
  deriving DecidableEq

/-- A model and whether it has a context. -/
structure Held where
  model : Option ModelId
  context : Bool
  deriving DecidableEq

/-- The actor's pointers: `model` and `context`, `modelEmbed` and
`contextEmbed`. -/
abbrev LlamaContext := Slot → Held

/-- A vector, with the model and the text it was computed from. -/
structure Embedding (α : Type) where
  values : List α
  model : ModelId
  text : String
  deriving DecidableEq

/-- What a load finds: the file and its first bytes, whether the library
loads it with all layers on the GPU or on the CPU alone, and whether it
makes a context. -/
structure LoadAnswer where
  fileExists : Bool
  isGGUFFile : Bool
  loadsOnGPU : Bool
  loadsOnCPU : Bool
  initsContext : Bool

namespace LlamaContext

def empty : LlamaContext := fun _ => ⟨none, false⟩

/-- The slot holds the model, with a context. -/
def Holds (l : LlamaContext) (k : Slot) (id : ModelId) : Prop := l k = ⟨some id, true⟩

instance (l : LlamaContext) (k : Slot) (id : ModelId) : Decidable (l.Holds k id) :=
  inferInstanceAs (Decidable (_ = _))

/-- `loadModel` and `loadEmbeddingModel`. -/
def loadModel (k : Slot) (id : ModelId) (lowMemory : Bool) (file : LoadAnswer) (l : LlamaContext) :
    LlamaContext × Except LlamaError Unit :=
  if !file.fileExists then (l, .error .modelFileMissing)
  else if !file.isGGUFFile then (l, .error .invalidModelFile)
  else
    let loads := if lowMemory then file.loadsOnCPU else file.loadsOnGPU || file.loadsOnCPU
    if !loads then (Function.update l k ⟨none, false⟩, .error .failedToLoadModel)
    else if !file.initsContext then (Function.update l k ⟨some id, false⟩, .error .failedToInitContext)
    else (Function.update l k ⟨some id, true⟩, .ok ())

/-- `unloadChat` and `unloadEmbedding`. -/
def unloadModel (k : Slot) (l : LlamaContext) : LlamaContext := Function.update l k ⟨none, false⟩

/-- `unload`. -/
def unload (l : LlamaContext) : LlamaContext := unloadModel .embedding (unloadModel .chat l)

def embedWithEmbeddingModel {α : Type} (text : String) (values : Except LlamaError (List α)) (l : LlamaContext) :
    Except LlamaError (Embedding α) :=
  match l .embedding with
  | ⟨some model, true⟩ => values.map fun values => { values, model, text }
  | _ => .error .notLoaded

section Spec

variable {k k' : Slot} {id : ModelId} {lowMemory : Bool} {file : LoadAnswer} {l : LlamaContext}

/-- A load leaves the actor alone, or frees the slot and then fails, or
fills the slot. -/
theorem loadModel_cases (k : Slot) (id : ModelId) (lowMemory : Bool) (file : LoadAnswer) (l : LlamaContext) :
    (∃ e, loadModel k id lowMemory file l = (l, .error e)) ∨
    (∃ held e, loadModel k id lowMemory file l = (Function.update l k held, .error e)) ∨
    loadModel k id lowMemory file l = (Function.update l k ⟨some id, true⟩, .ok ()) := by
  simp only [loadModel]
  generalize (if lowMemory then file.loadsOnCPU else file.loadsOnGPU || file.loadsOnCPU) = loads
  cases hf : file.fileExists with
  | false => exact Or.inl ⟨_, rfl⟩
  | true =>
    cases hg : file.isGGUFFile with
    | false => exact Or.inl ⟨_, rfl⟩
    | true =>
      cases loads with
      | false => exact Or.inr (Or.inl ⟨_, _, rfl⟩)
      | true =>
        cases hc : file.initsContext with
        | false => exact Or.inr (Or.inl ⟨_, _, rfl⟩)
        | true => exact Or.inr (Or.inr rfl)

/-- A load that succeeds leaves its model in its slot. -/
theorem holds_of_loadModel (h : (loadModel k id lowMemory file l).2 = .ok ()) :
    (loadModel k id lowMemory file l).1.Holds k id := by
  rcases loadModel_cases k id lowMemory file l with ⟨e, he⟩ | ⟨held, e, he⟩ | he
  · rw [he] at h
    exact nomatch h
  · rw [he] at h
    exact nomatch h
  · rw [he]
    exact Function.update_self k _ l

/-- A load leaves the other slot alone. -/
theorem loadModel_of_ne (h : k' ≠ k) : (loadModel k id lowMemory file l).1 k' = l k' := by
  rcases loadModel_cases k id lowMemory file l with ⟨e, he⟩ | ⟨held, e, he⟩ | he
  · rw [he]
  · rw [he]
    exact Function.update_of_ne h _ _
  · rw [he]
    exact Function.update_of_ne h _ _

theorem unloadModel_of_ne (h : k' ≠ k) : unloadModel k l k' = l k' := Function.update_of_ne h _ _

theorem unload_apply : unload l k = ⟨none, false⟩ := by cases k <;> rfl

/-- An embedding is of the model the actor holds, of the text it was given. -/
theorem holds_of_embed {α : Type} {text : String} {values : Except LlamaError (List α)} {e : Embedding α}
    (h : embedWithEmbeddingModel text values l = .ok e) : l.Holds .embedding e.model ∧ e.text = text := by
  unfold embedWithEmbeddingModel at h
  split at h
  · rename_i model hl
    cases values with
    | error => cases h
    | ok values =>
      cases h
      exact ⟨hl, rfl⟩
  · cases h

end Spec

end LlamaContext

end SynapsNotes.Runtime
