import SynapsNotes.Runtime.Handles

/-!
# The pointers refine the models held

`Runtime.Llama` tells the actor by the model that each slot holds, which is
what the schedules of loads, indexing and chats are about; with the OCR model
beside them, and whether it has a vision context, that is all that the actor
is for. `Actor.heldModels` reads it off the pointers. A job on the pointers is
the operation there (`heldModels_run`), a load reports the same (`result_eq`),
and a job misses its model where none is held with its context
(`missing_iff`).
-/

namespace SynapsNotes.Runtime.Native

open Framework

variable {T : Multiset (Object Kind)} {s : Actor} {p q : Pointer} {k : Slot} {file : ModelId} {lowMemory : Bool}
  {answer : LoadAnswer}

def modelPointer : Slot → Pointer
  | .chat => .model
  | .embedding => .modelEmbed

def contextPointer : Slot → Pointer
  | .chat => .context
  | .embedding => .contextEmbed

def Kind.file? : Kind → Option ModelId
  | .model file => some file
  | _ => none

/-- The model that each slot holds, and whether it has a context. -/
def modelsOf (f : Pointer → Option (Object Kind)) : LlamaContext := fun k =>
  ⟨(f (modelPointer k)).bind fun o => o.kind.file?, (f (contextPointer k)).isSome⟩

/-- The OCR model, and whether it has a vision context. -/
structure HeldOCR where
  held : Held
  vision : Bool
  deriving DecidableEq

def ocrOf (f : Pointer → Option (Object Kind)) : HeldOCR :=
  ⟨⟨(f .modelOCR).bind fun o => o.kind.file?, (f .contextOCR).isSome⟩, (f .visionOCRContext).isSome⟩

/-- The actor, by the models it holds. -/
structure HeldModels where
  slots : LlamaContext
  ocr : HeldOCR

def Actor.models (s : Actor) : LlamaContext := modelsOf s.pointer

def Actor.heldModels (s : Actor) : HeldModels := ⟨s.models, ocrOf s.pointer⟩

/-! ## What is done with the models -/

/-- Whether the library loads the file, on the GPU or on the CPU. -/
def loads (lowMemory : Bool) (answer : LoadAnswer) : Bool :=
  if lowMemory then answer.loadsOnCPU else answer.loadsOnGPU || answer.loadsOnCPU

namespace HeldOCR

def empty : HeldOCR := ⟨⟨none, false⟩, false⟩

/-- A load of the OCR model; the candidates are tried for its vision context. -/
def load (file : ModelId) (lowMemory : Bool) (answer : LoadAnswer) (candidates : List Actor.VisionAnswer)
    (ocr : HeldOCR) : HeldOCR × Except LlamaError Unit :=
  if !answer.fileExists then (ocr, .error .modelFileMissing)
  else if !answer.isGGUFFile then (ocr, .error .invalidModelFile)
  else if !loads lowMemory answer then (empty, .error .failedToLoadModel)
  else if !answer.initsContext then (⟨⟨some file, false⟩, false⟩, .error .failedToInitContext)
  else (⟨⟨some file, true⟩, candidates.any fun c => c.inits && c.supportsVision⟩, .ok ())

end HeldOCR

/-- There is a model, with a context. -/
def IsReady (held : Held) : Prop := held.model.isSome = true ∧ held.context = true

instance (held : Held) : Decidable (IsReady held) := inferInstanceAs (Decidable (_ ∧ _))

namespace HeldModels

def empty : HeldModels := ⟨LlamaContext.empty, .empty⟩

/-- What a job does to the models held. -/
def run (l : HeldModels) : Job → HeldModels
  | .loadModel file lowMemory answer => { l with slots := (l.slots.loadModel .chat file lowMemory answer).1 }
  | .loadEmbeddingModel file lowMemory answer =>
    { l with slots := (l.slots.loadModel .embedding file lowMemory answer).1 }
  | .loadOCRModel file lowMemory answer candidates => { l with ocr := (l.ocr.load file lowMemory answer candidates).1 }
  | .unloadChat => { l with slots := l.slots.unloadModel .chat }
  | .unloadEmbedding => { l with slots := l.slots.unloadModel .embedding }
  | .unloadOCRModel => { l with ocr := .empty }
  | .unload => ⟨l.slots.unload, .empty⟩
  | .completion _ | .stopCompletion | .embedWithEmbeddingModel _ | .embed _ | .applyTemplate _
  | .extractTextFromImageData _ | .refineOCRText .. => l

/-- What a load reports. -/
def result (l : HeldModels) : Job → Except LlamaError Unit
  | .loadModel file lowMemory answer => (l.slots.loadModel .chat file lowMemory answer).2
  | .loadEmbeddingModel file lowMemory answer => (l.slots.loadModel .embedding file lowMemory answer).2
  | .loadOCRModel file lowMemory answer candidates => (l.ocr.load file lowMemory answer candidates).2
  | _ => .ok ()

/-- The error with which a job ends at once, for want of its model: a text is
embedded with the chat model where no other is held. -/
def missing (l : HeldModels) : Job → Option LlamaError
  | .completion _ => if IsReady (l.slots .chat) then none else some .notLoaded
  | .embedWithEmbeddingModel _ => if IsReady (l.slots .embedding) then none else some .notLoaded
  | .embed _ => if IsReady (l.slots .embedding) ∨ IsReady (l.slots .chat) then none else some .notLoaded
  | .extractTextFromImageData a =>
    if a.isEmpty then none
    else if ¬ IsReady l.ocr.held then some .notLoaded
    else if l.ocr.vision then none else some .ocrVisionUnavailable
  | .refineOCRText .. => if IsReady l.ocr.held then none else some .notLoaded
  | _ => none

end HeldModels

/-- What a load of a model reports. -/
def Job.result (s : Actor) : Job → Except LlamaError Unit
  | .loadModel file lowMemory answer => (s.loadModel file lowMemory answer).2
  | .loadEmbeddingModel file lowMemory answer => (s.loadEmbeddingModel file lowMemory answer).2
  | .loadOCRModel file lowMemory answer candidates => (s.loadOCRModel file lowMemory answer candidates).2
  | _ => .ok ()

/-- How a job that needs a model ends. -/
def Job.outcome (s : Actor) : Job → Except LlamaError Unit
  | .completion g => (s.completion g).2
  | .embedWithEmbeddingModel g => (s.embedWithEmbeddingModel g).2
  | .embed g => (s.embed g).2
  | .extractTextFromImageData a => (s.extractTextFromImageData a).2
  | .refineOCRText isBlank copies g => (s.refineOCRText isBlank copies g).2
  | _ => .ok ()

/-- The error says that a model is missing. -/
def IsMissing (e : LlamaError) : Prop := e = .notLoaded ∨ e = .ocrVisionUnavailable

/-- A job does to the models held, and reports of them, what `HeldModels`
says. -/
structure Simulates (s : Actor) (job : Job) (s' : Actor) : Prop where
  models : s'.heldModels = s.heldModels.run job
  result : job.result s = s.heldModels.result job
  missing : ∀ e, IsMissing e → (job.outcome s = .error e ↔ s.heldModels.missing job = some e)

/-! ## Pointers -/

theorem modelPointer_ne_contextPointer {k k' : Slot} : modelPointer k ≠ contextPointer k' := by
  cases k <;> cases k' <;> decide

theorem modelPointer_inj {k k' : Slot} : modelPointer k = modelPointer k' ↔ k = k' := by
  cases k <;> cases k' <;> decide

theorem contextPointer_inj {k k' : Slot} : contextPointer k = contextPointer k' ↔ k = k' := by
  cases k <;> cases k' <;> decide

/-- Both pointers of a slot are assigned. -/
theorem modelsOf_update (f : Pointer → Option (Object Kind)) (k : Slot) (m c : Option (Object Kind)) :
    modelsOf (Function.update (Function.update f (contextPointer k) c) (modelPointer k) m) =
      Function.update (modelsOf f) k ⟨m.bind fun o => o.kind.file?, c.isSome⟩ := by
  funext k'
  have hne : contextPointer k' ≠ modelPointer k := modelPointer_ne_contextPointer.symm
  by_cases hk : k' = k
  · subst hk
    rw [modelsOf, Function.update_self, Function.update_self, Function.update_of_ne hne, Function.update_self]
  · rw [modelsOf, Function.update_of_ne hk, Function.update_of_ne (modelPointer_inj.not.mpr hk),
      Function.update_of_ne modelPointer_ne_contextPointer, Function.update_of_ne hne,
      Function.update_of_ne (contextPointer_inj.not.mpr hk)]
    rfl

/-- A pointer of no slot. -/
theorem modelsOf_update_of_ne (f : Pointer → Option (Object Kind)) (o : Option (Object Kind))
    (hp : ∀ k, modelPointer k ≠ p ∧ contextPointer k ≠ p) : modelsOf (Function.update f p o) = modelsOf f := by
  funext k
  rw [modelsOf, Function.update_of_ne (hp k).1, Function.update_of_ne (hp k).2]
  rfl

/-- A pointer of the OCR model is of no slot. -/
theorem ne_ocr {p : Pointer} (hp : p = .modelOCR ∨ p = .contextOCR ∨ p = .visionOCRContext) (k : Slot) :
    modelPointer k ≠ p ∧ contextPointer k ≠ p := by
  rcases hp with rfl | rfl | rfl <;> cases k <;> decide

theorem ocrOf_update_slot (f : Pointer → Option (Object Kind)) (k : Slot) (m c : Option (Object Kind)) :
    ocrOf (Function.update (Function.update f (contextPointer k) c) (modelPointer k) m) = ocrOf f := by
  cases k <;> rfl

/-- The three pointers of the OCR model are assigned. -/
theorem modelsOf_update_ocr (f : Pointer → Option (Object Kind)) (m c v : Option (Object Kind)) :
    modelsOf (Function.update (Function.update (Function.update f .visionOCRContext v) .contextOCR c) .modelOCR m) =
      modelsOf f := by
  rw [modelsOf_update_of_ne _ _ (ne_ocr (.inl rfl)), modelsOf_update_of_ne _ _ (ne_ocr (.inr (.inl rfl))),
    modelsOf_update_of_ne _ _ (ne_ocr (.inr (.inr rfl)))]

theorem ocrOf_update_ocr (f : Pointer → Option (Object Kind)) (m c v : Option (Object Kind)) :
    ocrOf (Function.update (Function.update (Function.update f .visionOCRContext v) .contextOCR c) .modelOCR m) =
      ⟨⟨m.bind fun o => o.kind.file?, c.isSome⟩, v.isSome⟩ := rfl

/-! ## Loads -/

theorem pointer_loadFromFile (hp : s.pointer p = none) (file : ModelId) (lowMemory : Bool) (answer : LoadAnswer) :
    ∃ o, o.kind.file? = some file ∧
      (s.loadFromFile p file lowMemory answer).pointer =
        Function.update s.pointer p (if loads lowMemory answer then some o else none) := by
  refine ⟨s.library.fresh (.model file) [], rfl, ?_⟩
  have hnone : Function.update s.pointer p none = s.pointer := by rw [← hp, Function.update_eq_self]
  unfold Actor.loadFromFile loads
  cases lowMemory <;> cases answer.loadsOnGPU <;> cases answer.loadsOnCPU <;> first | rfl | exact hnone.symm

/-- A load of a model and its context, once their pointers are free. -/
theorem pointer_loadPair {pm pc : Pointer} (hne : pm ≠ pc) (hm : s.pointer pm = none) (hc : s.pointer pc = none)
    (embeddings : Bool) (file : ModelId) (lowMemory : Bool) (answer : LoadAnswer) :
    let r := s.loadPair pm pc embeddings file lowMemory answer
    (∃ m c : Option (Object Kind), r.1.pointer = Function.update (Function.update s.pointer pc c) pm m ∧
      (m.bind fun o => o.kind.file?) = (if loads lowMemory answer then some file else none) ∧
      c.isSome = (loads lowMemory answer && answer.initsContext)) ∧
      r.2 = if !loads lowMemory answer then .error .failedToLoadModel
        else if !answer.initsContext then .error .failedToInitContext else .ok () := by
  obtain ⟨o, hfile, hload⟩ := pointer_loadFromFile hm file lowMemory answer
  have hself : Function.update s.pointer pc none = s.pointer := by rw [← hc, Function.update_eq_self]
  unfold Actor.loadPair
  dsimp only
  generalize hs : s.loadFromFile pm file lowMemory answer = s' at hload ⊢
  cases hl : loads lowMemory answer with
  | false =>
    rw [hl] at hload
    have hnone : s'.pointer pm = none := by
      rw [hload]
      exact Function.update_self _ _ _
    rw [hnone]
    exact ⟨⟨none, none, by rw [hself, hload]; rfl, rfl, rfl⟩, rfl⟩
  | true =>
    rw [hl] at hload
    have hsome : s'.pointer pm = some o := by
      rw [hload]
      exact Function.update_self _ _ _
    rw [hsome]
    dsimp only
    cases answer.initsContext with
    | false => exact ⟨⟨some o, none, by rw [hself]; exact hload, hfile, rfl⟩, rfl⟩
    | true =>
      refine ⟨⟨some o, some (s'.library.fresh (.context embeddings) [o]), ?_, hfile, rfl⟩, rfl⟩
      rw [Function.update_comm hne.symm, if_pos rfl, Actor.pointer_store, hload]
      rfl

theorem pointer_releaseSlot (k : Slot) : ((s.release (contextPointer k)).release (modelPointer k)).pointer =
    Function.update (Function.update s.pointer (contextPointer k) none) (modelPointer k) none := by
  rw [Actor.pointer_release, Actor.pointer_release]

/-- Both pointers of a slot freed. -/
theorem releaseSlot_heldModels (k : Slot) : ((s.release (contextPointer k)).release (modelPointer k)).heldModels =
    { s.heldModels with slots := s.models.unloadModel k } := by
  rw [Actor.heldModels, Actor.models, pointer_releaseSlot, modelsOf_update, ocrOf_update_slot]
  rfl

/-- A load on the pointers, once the file has been looked at, is the load of
the slot. -/
theorem loadSlot_heldModels (k : Slot) (embeddings : Bool) (hexists : answer.fileExists = true)
    (hgguf : answer.isGGUFFile = true) :
    let r := ((s.release (contextPointer k)).release (modelPointer k)).loadPair (modelPointer k) (contextPointer k)
      embeddings file lowMemory answer
    r.1.heldModels = { s.heldModels with slots := (s.models.loadModel k file lowMemory answer).1 } ∧
      r.2 = (s.models.loadModel k file lowMemory answer).2 := by
  dsimp only
  have hreleased := pointer_releaseSlot (s := s) k
  have hc : ((s.release (contextPointer k)).release (modelPointer k)).pointer (contextPointer k) = none := by
    rw [hreleased, Function.update_of_ne modelPointer_ne_contextPointer.symm, Function.update_self]
  have hm : ((s.release (contextPointer k)).release (modelPointer k)).pointer (modelPointer k) = none := by
    rw [hreleased, Function.update_self]
  obtain ⟨⟨m, c, hpointer, hfile, hcontext⟩, hresult⟩ :=
    pointer_loadPair modelPointer_ne_contextPointer hm hc embeddings file lowMemory answer
  have hmodels : modelsOf (Function.update (Function.update s.pointer (contextPointer k) none) (modelPointer k) none) =
      Function.update s.models k ⟨none, false⟩ := modelsOf_update ..
  rw [hresult, Actor.heldModels, Actor.models, hpointer, modelsOf_update, ocrOf_update_slot, hreleased, hmodels,
    ocrOf_update_slot, Function.update_idem, hfile, hcontext, LlamaContext.loadModel, hexists, hgguf]
  unfold loads
  cases lowMemory <;> cases answer.loadsOnGPU <;> cases answer.loadsOnCPU <;> cases answer.initsContext <;>
    exact ⟨rfl, rfl⟩

theorem loadModel_heldModels :
    (s.loadModel file lowMemory answer).1.heldModels = s.heldModels.run (.loadModel file lowMemory answer) ∧
      (s.loadModel file lowMemory answer).2 = s.heldModels.result (.loadModel file lowMemory answer) := by
  dsimp only [HeldModels.run, HeldModels.result, Actor.heldModels]
  cases hexists : answer.fileExists with
  | false => simp [Actor.loadModel, LlamaContext.loadModel, hexists]
  | true =>
    cases hgguf : answer.isGGUFFile with
    | false => simp [Actor.loadModel, LlamaContext.loadModel, hexists, hgguf]
    | true =>
      rw [Actor.loadModel, hexists, hgguf]
      exact loadSlot_heldModels .chat false hexists hgguf

theorem loadEmbeddingModel_heldModels :
    (s.loadEmbeddingModel file lowMemory answer).1.heldModels =
        s.heldModels.run (.loadEmbeddingModel file lowMemory answer) ∧
      (s.loadEmbeddingModel file lowMemory answer).2 =
        s.heldModels.result (.loadEmbeddingModel file lowMemory answer) := by
  dsimp only [HeldModels.run, HeldModels.result, Actor.heldModels]
  cases hexists : answer.fileExists with
  | false => simp [Actor.loadEmbeddingModel, LlamaContext.loadModel, hexists]
  | true =>
    cases hgguf : answer.isGGUFFile with
    | false => simp [Actor.loadEmbeddingModel, LlamaContext.loadModel, hexists, hgguf]
    | true =>
      rw [Actor.loadEmbeddingModel, hexists, hgguf]
      exact loadSlot_heldModels .embedding true hexists hgguf

/-! ## The OCR model -/

theorem pointer_releaseOCR : (((s.release .visionOCRContext).release .contextOCR).release .modelOCR).pointer =
    Function.update (Function.update (Function.update s.pointer .visionOCRContext none) .contextOCR none) .modelOCR
      none := by
  rw [Actor.pointer_release, Actor.pointer_release, Actor.pointer_release]

theorem releaseOCR_heldModels : (((s.release .visionOCRContext).release .contextOCR).release .modelOCR).heldModels =
    { s.heldModels with ocr := .empty } := by
  rw [Actor.heldModels, Actor.models, pointer_releaseOCR, modelsOf_update_ocr, ocrOf_update_ocr]
  rfl

/-- The first candidate that supports vision is kept. -/
theorem pointer_tryCandidates (m : Object Kind) (candidates : List Actor.VisionAnswer)
    (hv : s.pointer .visionOCRContext = none) :
    ∃ v : Option (Object Kind), (s.tryCandidates m candidates).pointer = Function.update s.pointer .visionOCRContext v ∧
      v.isSome = candidates.any fun c => c.inits && c.supportsVision := by
  induction candidates generalizing s with
  | nil =>
    refine ⟨none, ?_, rfl⟩
    rw [← hv, Function.update_eq_self]
    rfl
  | cons a rest ih =>
    unfold Actor.tryCandidates
    cases ha : a.inits with
    | false =>
      obtain ⟨v, hpointer, hsome⟩ := ih hv
      exact ⟨v, hpointer, by simp [ha, hsome]⟩
    | true =>
      dsimp only
      cases hsupports : a.supportsVision with
      | true => exact ⟨_, rfl, by simp [ha, hsupports]⟩
      | false =>
        obtain ⟨v, hpointer, hsome⟩ := ih (s := (((s.make .visionContext [m]).calls
          [s.library.fresh .visionContext [m]]).free (s.library.fresh .visionContext [m]))) hv
        exact ⟨v, hpointer, by simp [ha, hsupports, hsome]⟩

variable (s file lowMemory) in
/-- A load on the three pointers, once the file has been looked at. -/
theorem pointer_loadOCRModel (hexists : answer.fileExists = true) (hgguf : answer.isGGUFFile = true)
    (candidates : List Actor.VisionAnswer) :
    ∃ m c v : Option (Object Kind), (s.loadOCRModel file lowMemory answer candidates).1.pointer =
        Function.update (Function.update (Function.update s.pointer .visionOCRContext v) .contextOCR c) .modelOCR m ∧
      (⟨⟨m.bind fun o => o.kind.file?, c.isSome⟩, v.isSome⟩, (s.loadOCRModel file lowMemory answer candidates).2) =
        (ocrOf s.pointer).load file lowMemory answer candidates := by
  have hreleased := pointer_releaseOCR (s := s)
  unfold Actor.loadOCRModel HeldOCR.load
  simp only [hexists, hgguf, Bool.not_true, Bool.false_eq_true, if_false]
  generalize ((s.release .visionOCRContext).release .contextOCR).release .modelOCR = s₀ at hreleased ⊢
  have hnoModel : s₀.pointer .modelOCR = none := by rw [hreleased]; rfl
  have hnoContext : s₀.pointer .contextOCR = none := by rw [hreleased]; rfl
  obtain ⟨⟨m, c, hpointer, hfile, hcontext⟩, hresult⟩ :=
    pointer_loadPair (by decide) hnoModel hnoContext false file lowMemory answer
  have hpair : (s₀.loadPair .modelOCR .contextOCR false file lowMemory answer).1.pointer = Function.update
      (Function.update (Function.update s.pointer .visionOCRContext none) .contextOCR c) .modelOCR m := by
    rw [hpointer, hreleased]
    funext p
    cases p <;> rfl
  generalize s₀.loadPair .modelOCR .contextOCR false file lowMemory answer = r at hpair hresult
  obtain ⟨s₁, result⟩ := r
  dsimp only at hpair hresult
  cases hl : loads lowMemory answer with
  | false =>
    simp only [hl, Bool.not_false, if_true, Bool.false_and] at hresult hfile hcontext
    rw [hresult]
    exact ⟨m, c, none, hpair, by simp [hfile, hcontext, HeldOCR.empty]⟩
  | true =>
    cases hinits : answer.initsContext with
    | false =>
      simp only [hl, hinits, Bool.not_true, Bool.not_false, Bool.false_eq_true, if_false, if_true, Bool.and_false]
        at hresult hfile hcontext
      rw [hresult]
      exact ⟨m, c, none, hpair, by simp [hfile, hcontext]⟩
    | true =>
      simp only [hl, hinits, Bool.not_true, Bool.false_eq_true, if_false, if_true, Bool.and_self]
        at hresult hfile hcontext
      obtain ⟨o, rfl, hkind⟩ := Option.bind_eq_some_iff.mp hfile
      have hmodel : s₁.pointer .modelOCR = some o := by rw [hpair]; rfl
      have hvision : (s₁.release .visionOCRContext).pointer = s₁.pointer := by
        rw [Actor.pointer_release, Function.update_eq_self_iff, hpair]
        rfl
      obtain ⟨v, htried, hsome⟩ := pointer_tryCandidates (s := s₁.release .visionOCRContext) o candidates
        (by rw [hvision, hpair]; rfl)
      refine ⟨some o, c, v, ?_, by simp [hresult, hmodel, hkind, hcontext, hsome]⟩
      rw [hresult]
      dsimp only
      rw [hmodel]
      dsimp only [Actor.initializeVisionOCRContext]
      rw [htried, hvision, hpair]
      funext p
      cases p <;> rfl

theorem loadOCRModel_heldModels (candidates : List Actor.VisionAnswer) :
    (s.loadOCRModel file lowMemory answer candidates).1.heldModels =
        s.heldModels.run (.loadOCRModel file lowMemory answer candidates) ∧
      (s.loadOCRModel file lowMemory answer candidates).2 =
        s.heldModels.result (.loadOCRModel file lowMemory answer candidates) := by
  dsimp only [HeldModels.run, HeldModels.result, Actor.heldModels]
  cases hexists : answer.fileExists with
  | false => simp [Actor.loadOCRModel, HeldOCR.load, hexists]
  | true =>
    cases hgguf : answer.isGGUFFile with
    | false => simp [Actor.loadOCRModel, HeldOCR.load, hexists, hgguf]
    | true =>
      obtain ⟨m, c, v, hpointer, hload⟩ := pointer_loadOCRModel s file lowMemory hexists hgguf candidates
      rw [← hload, Actor.models, hpointer, modelsOf_update_ocr, ocrOf_update_ocr]
      exact ⟨rfl, rfl⟩

/-! ## Every job -/

/-- A job on the pointers is the operation on the models held. -/
theorem heldModels_run (h : Sound T s) (job : Job) : (s.run job).heldModels = s.heldModels.run job := by
  have hsame : ∀ {T' : Multiset (Object Kind)} {s' : Actor}, Working s.pointer T' s' → s'.heldModels = s.heldModels :=
    fun h => congrArg (fun f => HeldModels.mk (modelsOf f) (ocrOf f)) h.pointer
  cases job with
  | loadModel file lowMemory answer => exact loadModel_heldModels.1
  | loadEmbeddingModel file lowMemory answer => exact loadEmbeddingModel_heldModels.1
  | loadOCRModel file lowMemory answer candidates => exact (loadOCRModel_heldModels candidates).1
  | unloadChat => exact releaseSlot_heldModels (s := { s with stopRequested := true }) .chat
  | unloadEmbedding => exact releaseSlot_heldModels .embedding
  | unloadOCRModel => exact releaseOCR_heldModels
  | unload =>
    have hchat : s.unloadChat.heldModels = { s.heldModels with slots := s.models.unloadModel .chat } :=
      releaseSlot_heldModels (s := { s with stopRequested := true }) .chat
    have hembedding : s.unloadChat.unloadEmbedding.heldModels =
        { s.unloadChat.heldModels with slots := s.unloadChat.models.unloadModel .embedding } :=
      releaseSlot_heldModels .embedding
    refine (releaseOCR_heldModels (s := s.unloadChat.unloadEmbedding)).trans ?_
    rw [hembedding, show s.unloadChat.models = s.models.unloadModel .chat from congrArg HeldModels.slots hchat]
    rfl
  | completion g => exact hsame (h.completion g)
  | stopCompletion => rfl
  | embedWithEmbeddingModel g => exact hsame (h.embedWithEmbeddingModel g)
  | embed g => exact hsame (h.embed g)
  | applyTemplate copies => exact hsame (h.applyTemplate copies)
  | extractTextFromImageData a => exact hsame (h.extractTextFromImageData a)
  | refineOCRText isBlank copies g => exact hsame (h.refineOCRText isBlank copies g)

theorem result_eq (job : Job) : job.result s = s.heldModels.result job := by
  cases job with
  | loadModel file lowMemory answer => exact loadModel_heldModels.2
  | loadEmbeddingModel file lowMemory answer => exact loadEmbeddingModel_heldModels.2
  | loadOCRModel file lowMemory answer candidates => exact (loadOCRModel_heldModels candidates).2
  | _ => rfl

/-! ## A model that is missing -/

/-- The result is not that a model is missing. -/
def NeverMissing (r : Except LlamaError Unit) : Prop := ∀ e, IsMissing e → r ≠ .error e

theorem neverMissing_ok : NeverMissing (.ok ()) := fun _ _ => nofun

theorem neverMissing_error {e : LlamaError} (he : ¬ IsMissing e) : NeverMissing (.error e) := by
  rintro e' he' heq
  cases heq
  exact he he'

theorem not_isMissing_decodeFailed : ¬ IsMissing .decodeFailed := by
  rintro (h | h) <;> cases h

theorem not_isMissing_noEmbeddings : ¬ IsMissing .noEmbeddings := by
  rintro (h | h) <;> cases h

theorem neverMissing_decodePrompt (context : Object Kind) (decodes : List Bool) :
    NeverMissing (s.decodePrompt context decodes).2 := by
  induction decodes generalizing s with
  | nil => exact neverMissing_ok
  | cons succeeds rest ih =>
    cases succeeds with
    | false => exact neverMissing_error not_isMissing_decodeFailed
    | true => exact ih

theorem neverMissing_passes (model context sampler : Object Kind) (ps : List Actor.Pass) :
    NeverMissing (s.passes model context sampler ps).2 := by
  induction ps generalizing s with
  | nil => exact neverMissing_ok
  | cons pass rest ih =>
    cases pass with
    | endOfGeneration => exact neverMissing_ok
    | stopSequence => exact neverMissing_ok
    | decoded succeeds =>
      cases succeeds with
      | false => exact neverMissing_error not_isMissing_decodeFailed
      | true => exact ih

theorem neverMissing_generateText (model context : Object Kind) (samplers : Nat) (g : Actor.Generation) :
    NeverMissing (s.generateText model context samplers g).2 := by
  have hprompt := neverMissing_decodePrompt context g.prompt
    (s := ((s.calls [model]).calls [context]).resetBatch g.chunkSize)
  unfold Actor.generateText
  split
  · exact neverMissing_ok
  · dsimp only
    split <;> rename_i heq <;> rw [heq] at hprompt
    · exact hprompt
    · exact neverMissing_passes _ _ _ _

theorem neverMissing_embedText (context model : Object Kind) (g : Actor.Generation) :
    NeverMissing (s.embedText context model g).2 := by
  have hprompt := neverMissing_decodePrompt context g.prompt
    (s := ((s.calls [model]).calls [context]).resetBatch g.chunkSize)
  unfold Actor.embedText
  split
  · exact neverMissing_ok
  · dsimp only
    split <;> rename_i heq <;> rw [heq] at hprompt
    · exact hprompt
    · unfold Actor.readEmbeddings
      split
      · exact neverMissing_ok
      · exact neverMissing_error not_isMissing_noEmbeddings

theorem neverMissing_readImage (a : Actor.ImageAnswer) (model context vision prompt bitmap chunks : Object Kind) :
    NeverMissing (s.readImage a model context vision prompt bitmap chunks).2 := by
  unfold Actor.readImage
  split
  · exact neverMissing_error not_isMissing_decodeFailed
  · dsimp only
    split
    · exact neverMissing_error not_isMissing_decodeFailed
    · exact neverMissing_passes _ _ _ _

/-- A model pointer and the context pointer beside it. -/
theorem isReady_iff (h : Sound T s) (hp : p.base = none) (q : Pointer) :
    IsReady ⟨(s.pointer p).bind fun o => o.kind.file?, (s.pointer q).isSome⟩ ↔
      (s.pointer p).isSome = true ∧ (s.pointer q).isSome = true := by
  refine and_congr_left fun _ => ?_
  cases ho : s.pointer p with
  | none => rfl
  | some o =>
    have hfits := h.holds.shaped.fits _ _ ho
    cases p <;> cases hkind : o.kind <;> simp_all [Pointer.Fits, Pointer.base, Kind.file?]

theorem isReady_slot_iff (h : Sound T s) (k : Slot) : IsReady (s.models k) ↔
    (s.pointer (modelPointer k)).isSome = true ∧ (s.pointer (contextPointer k)).isSome = true :=
  isReady_iff h (by cases k <;> rfl) _

theorem isReady_ocr_iff (h : Sound T s) : IsReady s.heldModels.ocr.held ↔
    (s.pointer .modelOCR).isSome = true ∧ (s.pointer .contextOCR).isSome = true :=
  isReady_iff h rfl _

/-- A context is made from a model that is held. -/
theorem isReady_of_context (h : Sound T s) (k : Slot) {c : Object Kind} (hc : s.pointer (contextPointer k) = some c) :
    IsReady (s.models k) := by
  have hbase : (contextPointer k).base = some (modelPointer k) := by cases k <;> rfl
  obtain ⟨m, hm, -⟩ := h.holds.shaped.ofModel _ _ _ hc hbase
  rw [isReady_slot_iff h, hm, hc]
  exact ⟨rfl, rfl⟩

section Missing

variable {e : LlamaError}

/-- A job that finds its model. -/
theorem missing_of_never {r : Except LlamaError Unit} (h : NeverMissing r) (he : IsMissing e) :
    r = .error e ↔ (none : Option LlamaError) = some e := iff_of_false (h e he) nofun

theorem missing_of_error (e' : LlamaError) : (.error e' : Except LlamaError Unit) = .error e ↔ some e' = some e := by
  rw [Except.error.injEq, Option.some.injEq]

theorem completion_missing_iff (h : Sound T s) (he : IsMissing e) (g : Actor.Generation) :
    (s.completion g).2 = .error e ↔ s.heldModels.missing (.completion g) = some e := by
  have hready := isReady_slot_iff h .chat
  dsimp only [HeldModels.missing, Actor.heldModels]
  unfold Actor.completion
  cases hm : s.pointer .model with
  | none =>
    rw [if_neg fun hr => by simpa [modelPointer, hm] using (hready.mp hr).1]
    exact missing_of_error _
  | some m =>
    cases hc : s.pointer .context with
    | none =>
      rw [if_neg fun hr => by simpa [contextPointer, hc] using (hready.mp hr).2]
      exact missing_of_error _
    | some c =>
      rw [if_pos (isReady_of_context h .chat hc)]
      refine missing_of_never ?_ he
      have hprompt := neverMissing_decodePrompt c g.prompt
        (s := (({ s with stopRequested := false }).calls [m, c]).resetBatch g.chunkSize)
      dsimp only
      split <;> rename_i heq <;> rw [heq] at hprompt
      · exact hprompt
      · exact neverMissing_passes _ _ _ _

theorem embedWithEmbeddingModel_missing_iff (h : Sound T s) (he : IsMissing e) (g : Actor.Generation) :
    (s.embedWithEmbeddingModel g).2 = .error e ↔ s.heldModels.missing (.embedWithEmbeddingModel g) = some e := by
  have hready := isReady_slot_iff h .embedding
  dsimp only [HeldModels.missing, Actor.heldModels]
  unfold Actor.embedWithEmbeddingModel
  cases hc : s.pointer .contextEmbed with
  | none =>
    rw [if_neg fun hr => by simpa [contextPointer, hc] using (hready.mp hr).2]
    exact missing_of_error _
  | some c =>
    cases hm : s.pointer .modelEmbed with
    | none =>
      rw [if_neg fun hr => by simpa [modelPointer, hm] using (hready.mp hr).1]
      exact missing_of_error _
    | some m =>
      rw [if_pos (isReady_of_context h .embedding hc)]
      exact missing_of_never (neverMissing_embedText c m g) he

/-- A model is there wherever a context is. -/
theorem embed_missing_iff (h : Sound T s) (he : IsMissing e) (g : Actor.Generation) :
    (s.embed g).2 = .error e ↔ s.heldModels.missing (.embed g) = some e := by
  have hchat := isReady_slot_iff h .chat
  have hembedding := isReady_slot_iff h .embedding
  dsimp only [HeldModels.missing, Actor.heldModels]
  by_cases hready : IsReady (s.models .embedding) ∨ IsReady (s.models .chat)
  · rw [if_pos hready]
    obtain ⟨c, hc⟩ : ∃ c, (s.pointer .contextEmbed).or (s.pointer .context) = some c := by
      rcases hready with hr | hr
      · obtain ⟨c, hc⟩ := Option.isSome_iff_exists.mp (hembedding.mp hr).2
        exact ⟨c, by rw [show s.pointer .contextEmbed = some c from hc, Option.some_or]⟩
      · exact Option.isSome_iff_exists.mp (by
          rw [Option.isSome_or, show (s.pointer .context).isSome = true from (hchat.mp hr).2, Bool.or_true])
    obtain ⟨m, hm⟩ : ∃ m, (s.pointer .modelEmbed).or (s.pointer .model) = some m := by
      refine Option.isSome_iff_exists.mp ?_
      rw [Option.isSome_or, Bool.or_eq_true]
      exact hready.imp (fun hr => (hembedding.mp hr).1) fun hr => (hchat.mp hr).1
    unfold Actor.embed
    rw [hc, hm]
    exact missing_of_never (neverMissing_embedText c m g) he
  · rw [if_neg hready]
    obtain ⟨hnoEmbedding, hnoChat⟩ := not_or.mp hready
    have hc : (s.pointer .contextEmbed).or (s.pointer .context) = none := by
      rw [Option.or_eq_none_iff]
      exact ⟨Option.eq_none_iff_forall_ne_some.mpr fun c hc => hnoEmbedding (isReady_of_context h .embedding hc),
        Option.eq_none_iff_forall_ne_some.mpr fun c hc => hnoChat (isReady_of_context h .chat hc)⟩
    unfold Actor.embed
    rw [hc]
    exact missing_of_error _

theorem extractTextFromImageData_missing_iff (h : Sound T s) (he : IsMissing e) (a : Actor.ImageAnswer) :
    (s.extractTextFromImageData a).2 = .error e ↔ s.heldModels.missing (.extractTextFromImageData a) = some e := by
  have hready := isReady_ocr_iff h
  dsimp only [HeldModels.missing]
  unfold Actor.extractTextFromImageData
  cases a.isEmpty with
  | true => exact missing_of_never neverMissing_ok he
  | false =>
    rw [if_neg Bool.false_ne_true, if_neg Bool.false_ne_true]
    cases hc : s.pointer .contextOCR with
    | none =>
      rw [if_pos fun hr => by simpa [hc] using (hready.mp hr).2]
      exact missing_of_error _
    | some context =>
      cases hm : s.pointer .modelOCR with
      | none =>
        rw [if_pos fun hr => by simpa [hm] using (hready.mp hr).1]
        exact missing_of_error _
      | some model =>
        rw [if_neg (not_not.mpr (hready.mpr ⟨by rw [hm]; rfl, by rw [hc]; rfl⟩))]
        have hvision : s.heldModels.ocr.vision = (s.pointer .visionOCRContext).isSome := rfl
        cases hv : s.pointer .visionOCRContext with
        | none =>
          rw [hvision, hv]
          exact missing_of_error _
        | some vision =>
          rw [hvision, hv]
          refine missing_of_never ?_ he
          dsimp only
          split
          · exact neverMissing_error not_isMissing_decodeFailed
          dsimp only [Actor.bracket]
          split
          · exact neverMissing_error not_isMissing_decodeFailed
          dsimp only
          split
          · exact neverMissing_error not_isMissing_decodeFailed
          · exact neverMissing_readImage _ _ _ _ _ _ _

theorem refineOCRText_missing_iff (h : Sound T s) (he : IsMissing e) (isBlank : Bool) (copies : List Actor.Copies)
    (g : Actor.Generation) : (s.refineOCRText isBlank copies g).2 = .error e ↔
      s.heldModels.missing (.refineOCRText isBlank copies g) = some e := by
  have hready := isReady_ocr_iff h
  dsimp only [HeldModels.missing]
  unfold Actor.refineOCRText
  cases hc : s.pointer .contextOCR with
  | none =>
    rw [if_neg fun hr => by simpa [hc] using (hready.mp hr).2]
    exact missing_of_error _
  | some context =>
    cases hm : s.pointer .modelOCR with
    | none =>
      rw [if_neg fun hr => by simpa [hm] using (hready.mp hr).1]
      exact missing_of_error _
    | some model =>
      rw [if_pos (hready.mpr ⟨by rw [hm]; rfl, by rw [hc]; rfl⟩)]
      refine missing_of_never ?_ he
      dsimp only
      split
      · exact neverMissing_ok
      · exact neverMissing_generateText _ _ _ _

/-- A job misses its model where none is held. -/
theorem missing_iff (h : Sound T s) (job : Job) (he : IsMissing e) :
    job.outcome s = .error e ↔ s.heldModels.missing job = some e := by
  cases job with
  | completion g => exact completion_missing_iff h he g
  | embedWithEmbeddingModel g => exact embedWithEmbeddingModel_missing_iff h he g
  | embed g => exact embed_missing_iff h he g
  | extractTextFromImageData a => exact extractTextFromImageData_missing_iff h he a
  | refineOCRText isBlank copies g => exact refineOCRText_missing_iff h he isBlank copies g
  | _ => exact missing_of_never neverMissing_ok he

end Missing

theorem simulates_run (h : Sound T s) (job : Job) : Simulates s job (s.run job) where
  models := heldModels_run h job
  result := result_eq job
  missing _ he := missing_iff h job he

/-- The actor holds no model when it is made, and from then on each job, in
whatever order they run, does what it does to the models held. -/
theorem simulates (jobs : List Job) :
    Actor.launch.heldModels = .empty ∧ actor.Steps Simulates Actor.launch jobs := by
  refine ⟨?_, Machine.steps_of_invariant (I := fun s => ∃ T, Sound T s) ?_ ?_ ⟨0, Sound.launch⟩ jobs⟩
  · refine congrArg (HeldModels.mk · HeldOCR.empty) (funext fun k => ?_)
    cases k <;> rfl
  · rintro s job s' ⟨T, h⟩ hstep
    obtain rfl := Option.some.inj hstep
    exact ⟨_, h.run job⟩
  · rintro s job s' ⟨T, h⟩ hstep
    obtain rfl := Option.some.inj hstep
    exact simulates_run h job

end SynapsNotes.Runtime.Native
