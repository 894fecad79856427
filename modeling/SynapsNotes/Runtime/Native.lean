import SynapsNotes.Framework.Ledger
import SynapsNotes.Framework.Transition
import SynapsNotes.Runtime.Llama

/-!
# The actor and the library it calls

`LlamaContext` by the objects of llama.cpp that it holds: the models, their
contexts, the vision context and the batch, besides what a job makes for
itself (samplers, the bitmap and the chunks of an image, strings of `strdup`).
A job of the actor runs without interruption; it is told here by its calls
into the library, in their order, with every early exit. What a call comes to
(whether a file loads, what a pass of a loop samples) is part of the job.

A load assigns its pointers only after it has freed what they held; a context
and the vision context are made from their model, which has to outlive them.
-/

namespace SynapsNotes.Runtime.Native

open Framework

/-- What the library hands out. A context of the embedding model is made
with `embeddings` set. -/
inductive Kind
  | batch
  | model (file : ModelId)
  | context (embeddings : Bool)
  | visionContext
  | sampler
  | bitmap
  | chunks
  | cString
  deriving DecidableEq

/-- The pointers of the actor. -/
inductive Pointer
  | model
  | context
  | modelEmbed
  | contextEmbed
  | modelOCR
  | contextOCR
  | visionOCRContext
  deriving DecidableEq

instance : Fintype Pointer :=
  ⟨{.model, .context, .modelEmbed, .contextEmbed, .modelOCR, .contextOCR, .visionOCRContext}, fun p => by
    cases p <;> decide⟩

/-- The model that what a pointer holds is made from. -/
def Pointer.base : Pointer → Option Pointer
  | model | modelEmbed | modelOCR => none
  | context => some model
  | contextEmbed => some modelEmbed
  | contextOCR | visionOCRContext => some modelOCR

structure Actor where
  pointer : Pointer → Option (Object Kind)
  batch : Object Kind
  batchCapacity : Nat
  stopRequested : Bool
  /-- `chatGpuEnabled`, `embeddingGpuEnabled` and `ocrGpuEnabled`, by the
  model they are about. -/
  gpuEnabled : Pointer → Bool
  library : Ledger Kind

namespace Actor

variable (s : Actor)

/-! ## Calls -/

/-- Calls that work with objects. -/
def calls (os : List (Object Kind)) : Actor := { s with library := s.library.useAll os }

def make (kind : Kind) (bases : List (Object Kind)) : Actor := { s with library := s.library.make kind bases }

def free (o : Object Kind) : Actor := { s with library := s.library.free o }

/-- A pointer is assigned what is made for it. -/
def store (p : Pointer) (kind : Kind) (bases : List (Object Kind)) : Actor :=
  { s.make kind bases with pointer := Function.update s.pointer p (some (s.library.fresh kind bases)) }

/-- `if let p { free(p); self.p = nil }`. -/
def release (p : Pointer) : Actor :=
  match s.pointer p with
  | some o => { s.free o with pointer := Function.update s.pointer p none }
  | none => s

/-- An object that is made for a part of a job, and freed by its `defer`. -/
def bracket {β : Type} (kind : Kind) (body : Object Kind → Actor → Actor × β) : Actor × β :=
  let o := s.library.fresh kind []
  let r := body o (s.make kind [])
  (r.1.free o, r.2)

def resetBatch (capacity : Nat) : Actor :=
  let s := s.free s.batch
  { s.make .batch [] with batchCapacity := max 1 capacity, batch := s.library.fresh .batch [] }

/-! ## Loading and unloading -/

/-- `self.model = llama_model_load_from_file(...)`, once with all layers on
the GPU and, failing that, on the CPU alone. -/
def loadFromFile (p : Pointer) (file : ModelId) (lowMemory : Bool) (answer : LoadAnswer) : Actor :=
  if lowMemory then
    let s := { s with gpuEnabled := Function.update s.gpuEnabled p false }
    if answer.loadsOnCPU then s.store p (.model file) [] else s
  else if answer.loadsOnGPU then
    { s.store p (.model file) [] with gpuEnabled := Function.update s.gpuEnabled p true }
  else
    let s := { s with gpuEnabled := Function.update s.gpuEnabled p false }
    if answer.loadsOnCPU then s.store p (.model file) [] else s

/-- The model in one pointer and its context in another, once both are
free. -/
def loadPair (pm pc : Pointer) (embeddings : Bool) (file : ModelId) (lowMemory : Bool) (answer : LoadAnswer) :
    Actor × Except LlamaError Unit :=
  let s := s.loadFromFile pm file lowMemory answer
  match s.pointer pm with
  | none => (s, .error .failedToLoadModel)
  | some m =>
    if answer.initsContext then (s.store pc (.context embeddings) [m], .ok ())
    else (s, .error .failedToInitContext)

def loadModel (file : ModelId) (lowMemory : Bool) (answer : LoadAnswer) : Actor × Except LlamaError Unit :=
  if !answer.fileExists then (s, .error .modelFileMissing)
  else if !answer.isGGUFFile then (s, .error .invalidModelFile)
  else ((s.release .context).release .model).loadPair .model .context false file lowMemory answer

def loadEmbeddingModel (file : ModelId) (lowMemory : Bool) (answer : LoadAnswer) : Actor × Except LlamaError Unit :=
  if !answer.fileExists then (s, .error .modelFileMissing)
  else if !answer.isGGUFFile then (s, .error .invalidModelFile)
  else ((s.release .contextEmbed).release .modelEmbed).loadPair .modelEmbed .contextEmbed true file lowMemory answer

/-- Whether `mtmd_init_from_file` makes a context of a candidate, and
whether that supports vision. -/
structure VisionAnswer where
  inits : Bool
  supportsVision : Bool

/-- The loop over the candidates of `initializeVisionOCRContext`. -/
def tryCandidates (m : Object Kind) : List VisionAnswer → Actor → Actor
  | [], s => s
  | answer :: rest, s =>
    if !answer.inits then tryCandidates m rest s
    else
      let ctx := s.library.fresh .visionContext [m]
      let s := (s.make .visionContext [m]).calls [ctx]
      if answer.supportsVision then
        { s with pointer := Function.update s.pointer .visionOCRContext (some ctx) }
      else tryCandidates m rest (s.free ctx)

def initializeVisionOCRContext (m : Object Kind) (candidates : List VisionAnswer) : Actor :=
  (s.release .visionOCRContext).tryCandidates m candidates

def loadOCRModel (file : ModelId) (lowMemory : Bool) (answer : LoadAnswer) (candidates : List VisionAnswer) :
    Actor × Except LlamaError Unit :=
  if !answer.fileExists then (s, .error .modelFileMissing)
  else if !answer.isGGUFFile then (s, .error .invalidModelFile)
  else
    let s := ((s.release .visionOCRContext).release .contextOCR).release .modelOCR
    match s.loadPair .modelOCR .contextOCR false file lowMemory answer with
    | (s, .error e) => (s, .error e)
    | (s, .ok ()) =>
      match s.pointer .modelOCR with
      | some m => (s.initializeVisionOCRContext m candidates, .ok ())
      | none => (s, .ok ())

def unloadChat : Actor :=
  let s := { s with stopRequested := true }
  let s := (s.release .context).release .model
  { s with gpuEnabled := Function.update s.gpuEnabled .model false }

def unloadEmbedding : Actor :=
  let s := (s.release .contextEmbed).release .modelEmbed
  { s with gpuEnabled := Function.update s.gpuEnabled .modelEmbed false }

def unloadOCRModel : Actor :=
  let s := ((s.release .visionOCRContext).release .contextOCR).release .modelOCR
  { s with gpuEnabled := Function.update s.gpuEnabled .modelOCR false }

def unload : Actor := s.unloadChat.unloadEmbedding.unloadOCRModel

/-! ## Generating -/

/-- A pass of a generation loop, from the sampling on. -/
inductive Pass
  | endOfGeneration
  | stopSequence
  | decoded (succeeds : Bool)

/-- The chunks of a prompt, by whether `llama_decode` succeeds. -/
def decodePrompt (context : Object Kind) : List Bool → Actor → Actor × Except LlamaError Unit
  | [], s => (s, .ok ())
  | succeeds :: rest, s =>
    let s := s.calls [s.batch, context]
    if succeeds then decodePrompt context rest s else (s, .error .decodeFailed)

/-- The passes of a loop, until one ends it. -/
def passes (model context sampler : Object Kind) : List Pass → Actor → Actor × Except LlamaError Unit
  | [], s => (s, .ok ())
  | .endOfGeneration :: _, s => (s.calls [sampler, context, model], .ok ())
  | .stopSequence :: _, s => (s.calls [sampler, context, model], .ok ())
  | .decoded succeeds :: rest, s =>
    let s := s.calls [sampler, context, model, s.batch]
    if succeeds then passes model context sampler rest s else (s, .error .decodeFailed)

/-- `llama_sampler_chain_add`, of as many samplers. -/
def addSamplers (chain : Object Kind) : Nat → Actor → Actor
  | 0, s => s
  | n + 1, s =>
    let sampler := s.library.fresh .sampler []
    let s := s.make .sampler []
    addSamplers chain n { s with library := s.library.absorb chain sampler }

/-- The loop with its sampler, a chain of `samplers` of them (none for the
greedy one), which the `defer` frees. -/
def generate (model context : Object Kind) (samplers : Nat) (ps : List Pass) : Actor × Except LlamaError Unit :=
  s.bracket .sampler fun sampler s => passes model context sampler ps (s.addSamplers sampler samplers)

/-- What the calls of a job that feeds a prompt come to. -/
structure Generation where
  isEmpty : Bool
  chunkSize : Nat
  prompt : List Bool
  passes : List Pass

/-- The task of `completion`. -/
def completion (g : Generation) : Actor × Except LlamaError Unit :=
  match s.pointer .model, s.pointer .context with
  | some model, some context =>
    let s := { s with stopRequested := false }
    let s := (s.calls [model, context]).resetBatch g.chunkSize
    match s.decodePrompt context g.prompt with
    | (s, .error e) => (s, .error e)
    | (s, .ok ()) => s.generate model context 4 g.passes
  | _, _ => (s, .error .notLoaded)

/-- `stopCompletion`. -/
def stopCompletion : Actor := { s with stopRequested := true }

def generateText (model context : Object Kind) (samplers : Nat) (g : Generation) : Actor × Except LlamaError Unit :=
  let s := s.calls [model]
  if g.isEmpty then (s, .ok ())
  else
    let s := (s.calls [context]).resetBatch g.chunkSize
    match s.decodePrompt context g.prompt with
    | (s, .error e) => (s, .error e)
    | (s, .ok ()) => s.generate model context samplers g.passes

/-- `sampleText`. -/
def sampleText (model context : Object Kind) (samplers : Nat) (ps : List Pass) : Actor × Except LlamaError Unit :=
  s.generate model context samplers ps

/-! ## Embedding -/

/-- The embeddings are read as many numbers as the model says, so the
context has to be one of that model. A context made without `embeddings`
has none. -/
def readEmbeddings (context model : Object Kind) : Actor × Except LlamaError Unit :=
  let s := s.calls [context]
  if context.kind = .context true then
    let s := s.calls [model]
    ({ s with library := s.library.require (context.RestsOn model) }, .ok ())
  else (s, .error .noEmbeddings)

/-- `embed(text:context:model:)`. -/
def embedText (context model : Object Kind) (g : Generation) : Actor × Except LlamaError Unit :=
  let s := s.calls [model]
  if g.isEmpty then (s, .ok ())
  else
    let s := (s.calls [context]).resetBatch g.chunkSize
    match s.decodePrompt context g.prompt with
    | (s, .error e) => (s, .error e)
    | (s, .ok ()) => s.readEmbeddings context model

def embedWithEmbeddingModel (g : Generation) : Actor × Except LlamaError Unit :=
  match s.pointer .contextEmbed, s.pointer .modelEmbed with
  | some context, some model => s.embedText context model g
  | _, _ => (s, .error .notLoaded)

/-- `embed(text:)`. -/
def embed (g : Generation) : Actor × Except LlamaError Unit :=
  match (s.pointer .contextEmbed).or (s.pointer .context), (s.pointer .modelEmbed).or (s.pointer .model) with
  | some context, some model => s.embedText context model g
  | _, _ => (s, .error .notLoaded)

/-! ## Templates -/

/-- The copies of role and content of one message, by whether `strdup`
succeeds. -/
structure Copies where
  role : Bool
  content : Bool
  deriving DecidableEq

/-- The copies of the messages: the strings made, in their order, and whether
all of them were. -/
def copyMessages : List Copies → Actor → Actor × List (Object Kind) × Bool
  | [], s => (s, [], true)
  | copies :: rest, s =>
    if !copies.role then (s, [], false)
    else
      let role := s.library.fresh .cString []
      let s := s.make .cString []
      if !copies.content then (s, [role], false)
      else
        let content := s.library.fresh .cString []
        let (s, strings, all) := copyMessages rest (s.make .cString [])
        (s, role :: content :: strings, all)

def freeAll : List (Object Kind) → Actor → Actor
  | [], s => s
  | o :: os, s => freeAll os (s.free o)

/-- `applyTemplate`. The `defer` that frees the copies comes after the loop
that makes them. -/
def applyTemplate (model : Option (Object Kind)) (copies : List Copies) : Actor :=
  match model with
  | none => s
  | some model =>
    if copies.isEmpty then s
    else
      match s.copyMessages copies with
      | (s, _, false) => s
      | (s, strings, true) => (s.calls (model :: strings)).freeAll strings

/-! ## Reading images -/

/-- What the calls of `extractTextFromImageData` come to. -/
structure ImageAnswer where
  isEmpty : Bool
  copies : List Copies
  copiesPrompt : Bool
  makesBitmap : Bool
  makesChunks : Bool
  tokenizes : Bool
  evaluates : Bool
  passes : List Pass

/-- From the image's tokens on. -/
def readImage (a : ImageAnswer) (model context vision prompt bitmap chunks : Object Kind) :
    Actor × Except LlamaError Unit :=
  let s := s.calls [vision, chunks, prompt, bitmap]
  if !a.tokenizes then (s, .error .decodeFailed)
  else
    let s := s.calls [context, vision, chunks]
    if !a.evaluates then (s, .error .decodeFailed)
    else s.sampleText model context 0 a.passes

def extractTextFromImageData (a : ImageAnswer) : Actor × Except LlamaError Unit :=
  if a.isEmpty then (s, .ok ())
  else
    match s.pointer .contextOCR, s.pointer .modelOCR with
    | some context, some model =>
      match s.pointer .visionOCRContext with
      | none => (s, .error .ocrVisionUnavailable)
      | some vision =>
        let s := s.applyTemplate (some model) a.copies
        if !a.copiesPrompt then (s, .error .decodeFailed)
        else s.bracket .cString fun prompt s =>
          let s := s.calls [vision]
          if !a.makesBitmap then (s, .error .decodeFailed)
          else s.bracket .bitmap fun bitmap s =>
            if !a.makesChunks then (s, .error .decodeFailed)
            else s.bracket .chunks fun chunks s => s.readImage a model context vision prompt bitmap chunks
    | _, _ => (s, .error .notLoaded)

def refineOCRText (isBlank : Bool) (copies : List Copies) (g : Generation) : Actor × Except LlamaError Unit :=
  match s.pointer .contextOCR, s.pointer .modelOCR with
  | some context, some model =>
    if isBlank then (s, .ok ()) else (s.applyTemplate (some model) copies).generateText model context 0 g
  | _, _ => (s, .error .notLoaded)

/-! ## The life of the actor -/

/-- `init`. -/
def launch : Actor where
  pointer _ := none
  batch := Ledger.empty.fresh .batch []
  batchCapacity := 512
  stopRequested := false
  gpuEnabled _ := false
  library := Ledger.empty.make .batch []

/-- `if let p { free(p) }`. -/
def freeHeld (p : Pointer) : Actor :=
  match s.pointer p with
  | some o => s.free o
  | none => s

/-- The calls of `deinit`. -/
def deinit : Actor :=
  let s := s.free s.batch
  let s := (s.freeHeld .context).freeHeld .model
  let s := (s.freeHeld .contextEmbed).freeHeld .modelEmbed
  ((s.freeHeld .visionOCRContext).freeHeld .contextOCR).freeHeld .modelOCR

end Actor

/-- A job of the actor, with what its calls come to. -/
inductive Job
  | loadModel (file : ModelId) (lowMemory : Bool) (answer : LoadAnswer)
  | loadEmbeddingModel (file : ModelId) (lowMemory : Bool) (answer : LoadAnswer)
  | loadOCRModel (file : ModelId) (lowMemory : Bool) (answer : LoadAnswer) (candidates : List Actor.VisionAnswer)
  | unloadChat
  | unloadEmbedding
  | unloadOCRModel
  | unload
  | completion (g : Actor.Generation)
  | stopCompletion
  | embedWithEmbeddingModel (g : Actor.Generation)
  | embed (g : Actor.Generation)
  | applyTemplate (copies : List Actor.Copies)
  | extractTextFromImageData (a : Actor.ImageAnswer)
  | refineOCRText (isBlank : Bool) (copies : List Actor.Copies) (g : Actor.Generation)

def Actor.run (s : Actor) : Job → Actor
  | .loadModel file lowMemory answer => (s.loadModel file lowMemory answer).1
  | .loadEmbeddingModel file lowMemory answer => (s.loadEmbeddingModel file lowMemory answer).1
  | .loadOCRModel file lowMemory answer candidates => (s.loadOCRModel file lowMemory answer candidates).1
  | .unloadChat => s.unloadChat
  | .unloadEmbedding => s.unloadEmbedding
  | .unloadOCRModel => s.unloadOCRModel
  | .unload => s.unload
  | .completion g => (s.completion g).1
  | .stopCompletion => s.stopCompletion
  | .embedWithEmbeddingModel g => (s.embedWithEmbeddingModel g).1
  | .embed g => (s.embed g).1
  | .applyTemplate copies => s.applyTemplate (s.pointer .model) copies
  | .extractTextFromImageData a => (s.extractTextFromImageData a).1
  | .refineOCRText isBlank copies g => (s.refineOCRText isBlank copies g).1

/-- The actor runs one job after the other. -/
def actor : Machine Actor Job where
  step s job := some (s.run job)

end SynapsNotes.Runtime.Native
