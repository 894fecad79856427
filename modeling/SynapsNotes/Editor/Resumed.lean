import SynapsNotes.Chat.Joints
import SynapsNotes.Editor.Exact

/-!
# Drafts that are stopped and resumed

While one generation is alive, the preview is what is shown of its output,
behind what was in the preview when it was resumed (`Writes`). A draft that is
stopped and resumed therefore shows its two parts, each cleaned on its own; it
shows the same as an uninterrupted one exactly if nothing that is taken out
lies across the joint (`resumed_iff`).
-/

namespace SynapsNotes.Editor

open Framework Chat

/-- The action is a segment of a task. -/
def Action.isSegment : Action → Bool
  | .proceed _ _ => true
  | _ => false

/-- The tokens that a run hands to generation `i`. -/
def tokensOf (i : Nat) (as : List Action) : List String :=
  as.filterMap fun
    | .proceed j (.token token) => if j = i then some token else none
    | _ => none

namespace Controller

variable {c c' : Controller} {i j : Nat} {g : Generation} {event : Event} {append : Bool} {base raw : String}

/-- Generation `i`, which has put out `raw`, is the only one that writes the
preview. -/
structure Writes (i : Nat) (append : Bool) (base raw : String) (c : Controller) : Prop where
  generation : ∃ g, c.generations[i]? = some g ∧ g.appendToExistingPreview = append ∧ g.basePreview = base ∧
    g.isCancelled = false ∧ ∀ r ∈ g.at_.rawOutput, r = raw
  alone : ∀ j, c.liveAt j = true → j = i
  preview : c.previewText = (if append then base else "") ++ visibleContent raw
  task : c.isGenerating = true → c.generationTask = some i

/-! ## Segments -/

/-- A segment of task `j` leaves the other generations, and the preview if the
generation is dead. -/
theorem proceed_frame (h : c.proceed j g event = some c') : (∀ k, j ≠ k → c'.generations[k]? = c.generations[k]?) ∧
    (g.isLive = false → c'.previewText = c.previewText) := by
  have hset : ∀ g' : Generation, ∀ k, j ≠ k → (c.generations.set j g')[k]? = c.generations[k]? := fun g' k hk =>
    List.getElem?_set_ne hk
  obtain ⟨s, -, -, -, -, -, rfl⟩ | ⟨rawOutput, token, -, hcancelled, hat, rfl⟩ | ⟨message, -, rfl⟩ := proceed_cases h
  · exact ⟨hset _, fun _ => rfl⟩
  · refine ⟨hset _, fun hdead => ?_⟩
    rw [Generation.isLive, hat, hcancelled] at hdead
    cases hdead
  · exact ⟨hset _, fun _ => rfl⟩

/-- A segment of a task that is not cancelled adds its token to the output and
the preview, or leaves both. -/
theorem proceed_output (hg : c.generations[i]? = some g) (hcancelled : g.isCancelled = false)
    (h : c.proceed i g event = some c') : ∃ g', c'.generations[i]? = some g' ∧
      g'.appendToExistingPreview = g.appendToExistingPreview ∧ g'.basePreview = g.basePreview ∧ g'.isCancelled = false ∧
      ((∃ rawOutput token, event = .token token ∧ g.at_.rawOutput = some rawOutput ∧
          g'.at_.rawOutput = some (rawOutput ++ token) ∧
          c'.previewText = (editorStep g.appendToExistingPreview g.basePreview (rawOutput, c.previewText) token).2) ∨
        ((∀ token, event ≠ .token token) ∧ (∀ r ∈ g'.at_.rawOutput, g.at_.rawOutput = some r) ∧
          c'.previewText = c.previewText)) := by
  have hset : ∀ g' : Generation, (c.generations.set i g')[i]? = some g' := fun g' => by
    rw [List.getElem?_set_self (List.getElem?_eq_some_iff.mp hg).1]
  obtain ⟨s, -, hevent, -, -, hraw, rfl⟩ | ⟨rawOutput, token, rfl, -, hat, rfl⟩ | ⟨message, hends, rfl⟩ :=
    proceed_cases h
  · exact ⟨_, hset _, rfl, rfl, hcancelled, .inr ⟨hevent, fun r hr => hraw.symm.trans hr, rfl⟩⟩
  · exact ⟨_, hset _, rfl, rfl, hcancelled, .inl ⟨rawOutput, token, rfl, by rw [hat]; rfl, rfl, rfl⟩⟩
  · refine ⟨_, hset _, rfl, rfl, hcancelled, .inr ⟨fun token htoken => ?_, fun r hr => (by cases hr), rfl⟩⟩
    -- a token ends a task only if it is cancelled
    rw [htoken, Event.ends, hcancelled] at hends
    cases hends

theorem tokensOf_cons (i : Nat) (a : Action) (as : List Action) :
    tokensOf i (a :: as) = tokensOf i [a] ++ tokensOf i as := by
  rw [tokensOf, ← List.singleton_append, List.filterMap_append]
  rfl

theorem tokensOf_token (i : Nat) (token : String) : tokensOf i [.proceed i (.token token)] = [token] := by
  simp [tokensOf]

theorem tokensOf_of_ne (hij : j ≠ i) (event : Event) : tokensOf i [.proceed j event] = [] := by
  cases event <;> simp [tokensOf, hij]

theorem tokensOf_of_not_token (h : ∀ token, event ≠ .token token) (i j : Nat) : tokensOf i [.proceed j event] = [] := by
  cases event with
  | token token => exact absurd rfl (h token)
  | _ => rfl

/-- A segment brings no generation to life, and gives up the flag at most. -/
theorem proceed_alive (hg : c.generations[j]? = some g) (h : c.proceed j g event = some c') :
    (∀ k, c'.liveAt k = true → c.liveAt k = true) ∧
      (c'.isGenerating = true → c.isGenerating = true ∧ c'.generationTask = c.generationTask) := by
  obtain ⟨-, hflag, htask, -, hlive⟩ | ⟨-, hflag, -, hlive⟩ := proceed_liveAt hg h
  · exact ⟨fun k hk => by rwa [hlive] at hk, fun hc => ⟨by rwa [hflag] at hc, htask⟩⟩
  · refine ⟨fun k hk => ?_, fun hc => ?_⟩
    · rw [hlive, Bool.and_eq_true] at hk
      exact hk.1
    · rw [hflag] at hc
      cases hc

theorem liveAt_eq (hg : c.generations[j]? = some g) : c.liveAt j = g.isLive := by rw [liveAt, hg]; rfl

/-- One segment of any task. -/
theorem Writes.step (h : c.Writes i append base raw) (hg : c.generations[j]? = some g)
    (hs : c.proceed j g event = some c') :
    c'.Writes i append base ((tokensOf i [.proceed j event]).foldl (· ++ ·) raw) := by
  obtain ⟨halive, hflag⟩ := proceed_alive hg hs
  have halone : ∀ k, c'.liveAt k = true → k = i := fun k hk => h.alone k (halive k hk)
  have htask : c'.isGenerating = true → c'.generationTask = some i := fun hc =>
    (hflag hc).2.trans (h.task (hflag hc).1)
  obtain ⟨g₀, hg₀, happend, hbase, hcancelled, hwritten⟩ := h.generation
  by_cases hji : j = i
  · subst hji
    obtain rfl := Option.some.inj (hg₀.symm.trans hg)
    obtain ⟨g', hg', happend', hbase', hcancelled', houtput⟩ := proceed_output hg hcancelled hs
    obtain ⟨rawOutput, token, rfl, hraw, hraw', hpreview⟩ | ⟨hevent, hrest, hpreview⟩ := houtput
    · obtain rfl := hwritten rawOutput hraw
      rw [tokensOf_token]
      refine ⟨⟨g', hg', happend'.trans happend, hbase'.trans hbase, hcancelled', fun r hr => ?_⟩, halone, ?_, htask⟩
      · rw [hraw'] at hr
        exact (Option.some.inj hr).symm
      · rw [hpreview, happend, hbase]
        cases append <;> simp [editorStep]
    · rw [tokensOf_of_not_token hevent]
      exact ⟨⟨g', hg', happend'.trans happend, hbase'.trans hbase, hcancelled', fun r hr => hwritten r (hrest r hr)⟩,
        halone, hpreview.trans h.preview, htask⟩
  · obtain ⟨hothers, hdead⟩ := proceed_frame hs
    have hnot : g.isLive = false := by
      rw [← liveAt_eq hg]
      exact Bool.eq_false_iff.mpr fun hlive => hji (h.alone j hlive)
    rw [tokensOf_of_ne hji]
    exact ⟨⟨g₀, by rw [hothers i hji, hg₀], happend, hbase, hcancelled, hwritten⟩, halone, (hdead hnot).trans h.preview,
      htask⟩

/-- Segments of the tasks, in any order. -/
theorem Writes.run {as : List Action} (h : c.Writes i append base raw) (has : ∀ a ∈ as, a.isSegment = true)
    (hr : machine.run c as = some c') : c'.Writes i append base ((tokensOf i as).foldl (· ++ ·) raw) := by
  induction as generalizing c raw with
  | nil =>
    cases hr
    exact h
  | cons a as ih =>
    rw [List.forall_mem_cons] at has
    obtain ⟨c₁, hs, hrest⟩ := Machine.run_cons.mp hr
    cases a with
    | proceed j event =>
      obtain ⟨g, hg, hs⟩ := Option.bind_eq_some_iff.mp hs
      rw [tokensOf_cons, List.foldl_append]
      exact ih (h.step hg hs) has.2 hrest
    | _ => cases has.1

/-- While no generation is alive, the preview stays. -/
theorem previewText_of_dead {as : List Action} (h : ∀ k, c.liveAt k = false) (has : ∀ a ∈ as, a.isSegment = true)
    (hr : machine.run c as = some c') : c'.previewText = c.previewText ∧ ∀ k, c'.liveAt k = false := by
  induction as generalizing c with
  | nil =>
    cases hr
    exact ⟨rfl, h⟩
  | cons a as ih =>
    rw [List.forall_mem_cons] at has
    obtain ⟨c₁, hs, hrest⟩ := Machine.run_cons.mp hr
    cases a with
    | proceed j event =>
      obtain ⟨g, hg, hs⟩ := Option.bind_eq_some_iff.mp hs
      have hdead : ∀ k, c₁.liveAt k = false := fun k => Bool.eq_false_iff.mpr fun hk =>
        Bool.eq_false_iff.mp (h k) ((proceed_alive hg hs).1 k hk)
      obtain ⟨hpreview, hend⟩ := ih hdead has.2 hrest
      exact ⟨hpreview.trans ((proceed_frame hs).2 ((liveAt_eq hg).symm.trans (h j))), hend⟩
    | _ => cases has.1

/-! ## Calls -/

/-- A generation that is created while no other is left alive is the only one
that writes. -/
theorem writes_runGeneration (h : ∀ k, c.cancelTask.liveAt k = false) (prompt : String) (append : Bool) :
    (c.runGeneration prompt append).Writes c.generations.length append (if append then c.previewText else "") "" := by
  rw [← length_cancelTask, ← previewText_cancelTask]
  refine ⟨⟨_, List.getElem?_concat_length, rfl, ?_, rfl, fun r hr => (Option.some.inj hr).symm⟩, fun k hk => ?_, ?_,
    fun _ => rfl⟩
  · cases append <;> rfl
  · rcases Nat.lt_trichotomy k c.cancelTask.generations.length with hlt | heq | hgt
    · rw [liveAt, Controller.runGeneration, List.getElem?_append_left hlt] at hk
      cases (h k).symm.trans hk
    · exact heq
    · have hlen := lt_of_liveAt hk
      rw [Controller.runGeneration, List.length_append, List.length_singleton] at hlen
      omega
  · rw [visibleContent_empty, String.append_empty]
    cases append <;> rfl

theorem cancelTask_quiet_congr {c₁ : Controller} (hg : c₁.generations = c.generations)
    (ht : c₁.generationTask = c.generationTask) (h : ∀ k, c.cancelTask.liveAt k = false) (k : Nat) :
    c₁.cancelTask.liveAt k = false := by
  have hk := h k
  rw [liveAt_cancelTask] at hk ⊢
  rwa [liveAt, hg, ht]

/-- A draft that is asked for while no other generation is left alive writes. -/
theorem writes_start (h : ∀ k, c.cancelTask.liveAt k = false) {action : NoteAIAction} {noteText : String}
    {selectedRange : NSRange} {isModelLoaded isAppGenerating : Bool}
    (hstart : c.start action noteText selectedRange isModelLoaded isAppGenerating = (c', true)) :
    c'.Writes c.generations.length false "" "" := by
  obtain ⟨message, heq⟩ | ⟨-, c₁, scopeDescription, prompt, hc₁, heq⟩ :=
    c.start_cases action noteText selectedRange isModelLoaded isAppGenerating
  · rw [heq] at hstart
    cases hstart
  · rw [heq] at hstart
    obtain rfl := congrArg Prod.fst hstart
    have hquiet : ∀ k, c₁.cancelTask.liveAt k = false :=
      cancelTask_quiet_congr (by rw [hc₁]) (by rw [hc₁]) h
    have hwrites := writes_runGeneration hquiet prompt false
    subst hc₁
    exact hwrites

/-- So does one that is resumed, behind what is shown of it. -/
theorem writes_resume (h : ∀ k, c.cancelTask.liveAt k = false) {isAppGenerating : Bool}
    (hresume : (c.resume isAppGenerating).2 = true) :
    (trimmed c.previewText).isEmpty = false ∧
      (c.resume isAppGenerating).1.Writes c.generations.length true c.previewText "" := by
  obtain ⟨message, heq⟩ | ⟨hdraft, c₁, prompt, hc₁, heq⟩ := c.resume_cases isAppGenerating
  · rw [heq] at hresume
    cases hresume
  · rw [heq]
    have hquiet : ∀ k, c₁.cancelTask.liveAt k = false :=
      cancelTask_quiet_congr (by rw [hc₁]) (by rw [hc₁]) h
    have hwrites := writes_runGeneration hquiet prompt true
    subst hc₁
    exact ⟨hdraft, hwrites⟩

/-- Stopping leaves no generation alive. -/
theorem Writes.stop (h : c.Writes i append base raw) (hgenerating : c.isGenerating = true) :
    c.stop.previewText = c.previewText ∧ ∀ k, c.stop.liveAt k = false := by
  rw [Controller.stop, if_neg (by simp [hgenerating])]
  refine ⟨previewText_cancelTask c, fun k => ?_⟩
  show c.cancelTask.liveAt k = false
  rw [liveAt_cancelTask, h.task hgenerating]
  cases hk : c.liveAt k with
  | false => rfl
  | true => simp [h.alone k hk]

/-! ## A draft with a pause -/

/-- Segments of the tasks lead from `c` to `c'`, and hand `output` to generation
`i`. -/
def Outputs (i : Nat) (c : Controller) (output : String) (c' : Controller) : Prop :=
  ∃ as, (∀ a ∈ as, a.isSegment = true) ∧ machine.run c as = some c' ∧ rawOutput (tokensOf i as) = output

/-- From `c`, generation `i` hands out `first`, is stopped while it is
generating, and the one that resumes it hands out `second`. The stopped task may
go on to its end at any time. -/
def Paused (i : Nat) (c : Controller) (first second : String) (c' : Controller) : Prop :=
  ∃ (c₁ c₂ : Controller) (rest : String) (isAppGenerating : Bool), Outputs i c first c₁ ∧ c₁.isGenerating = true ∧
    Outputs i c₁.stop rest c₂ ∧ (c₂.resume isAppGenerating).2 = true ∧
    Outputs c₂.generations.length (c₂.resume isAppGenerating).1 second c'

theorem Writes.outputs {output : String} (h : c.Writes i append base "") (ho : Outputs i c output c') :
    c'.Writes i append base output := by
  obtain ⟨as, has, hr, rfl⟩ := ho
  exact h.run has hr

/-- A draft with a pause shows its two parts, each on its own, and it is resumed
only if the first shows something. -/
theorem previewText_of_paused {first second : String} (h : c.Writes i false "" "") (hp : Paused i c first second c') :
    visibleContent first ≠ "" ∧ c'.previewText = visibleContent first ++ visibleContent second := by
  obtain ⟨c₁, c₂, rest, isAppGenerating, hfirst, hgenerating, ⟨bs, hbs, hr, -⟩, hresume, hsecond⟩ := hp
  have hwrites := h.outputs hfirst
  obtain ⟨hstopped, hdead⟩ := hwrites.stop hgenerating
  obtain ⟨hpaused, hdead₂⟩ := previewText_of_dead hdead hbs hr
  have hshown : c₂.previewText = visibleContent first := by
    rw [hpaused, hstopped, hwrites.preview, if_neg Bool.false_ne_true, String.empty_append]
  have hquiet : ∀ k, c₂.cancelTask.liveAt k = false := fun k => by rw [liveAt_cancelTask, hdead₂ k, Bool.false_and]
  obtain ⟨hdraft, hresumed⟩ := writes_resume hquiet hresume
  rw [hshown] at hdraft hresumed
  refine ⟨fun hempty => ?_, ?_⟩
  · rw [hempty] at hdraft
    cases hdraft
  · rw [(hresumed.outputs hsecond).preview, if_pos rfl]

/-- Behind a run whose tasks clean up their own, a new draft is the only
generation alive. -/
theorem quiet_of_meets {as : List Action} (h : machine.Meets CleansUpItsOwn Controller.new as)
    (hr : machine.run Controller.new as = some c) (k : Nat) : c.cancelTask.liveAt k = false := by
  have howned : c.Owned := (h.always (fun _ _ _ hc hok hs => hc.step hok hs) owned_new).last hr
  exact howned.cancelTask k

/-- For every draft, and every point at which it is paused: without the pause,
the preview is what is shown of the whole output; with it, it is the same
exactly if nothing that is taken out lies across the joint. -/
theorem resumed_iff {c₀ : Controller} (hquiet : ∀ k, c₀.cancelTask.liveAt k = false) {action : NoteAIAction}
    {noteText : String} {selectedRange : NSRange} {isModelLoaded isAppGenerating : Bool}
    (hstart : c₀.start action noteText selectedRange isModelLoaded isAppGenerating = (c, true)) {first second : String}
    {uninterrupted paused : Controller} (h : Outputs c₀.generations.length c (first ++ second) uninterrupted)
    (hp : Paused c₀.generations.length c first second paused) :
    uninterrupted.previewText = visibleContent (first ++ second) ∧
      (paused.previewText = uninterrupted.previewText ↔ Joins first.toList second.toList) := by
  have hwrites := writes_start hquiet hstart
  have hwhole : uninterrupted.previewText = visibleContent (first ++ second) := by
    rw [(hwrites.outputs h).preview, if_neg Bool.false_ne_true, String.empty_append]
  obtain ⟨hshows, hparts⟩ := previewText_of_paused hwrites hp
  rw [hparts, hwhole]
  exact ⟨rfl, visibleContent_append_iff hshows⟩

/-! ## Two drafts -/

/-- A continuation of the note `a` that has been asked for. -/
def asked : Controller := (Controller.new.start .autoComplete "a" ⟨1, 0⟩ true false).1

/-- The segments of a generation up to this token. -/
def handsOut (i : Nat) (token : String) : List Action :=
  [.proceed i .begin, .proceed i (.templated "p"), .proceed i .opened, .proceed i (.token token)]

/-- Where a run from `c` ends. -/
def after (c : Controller) (as : List Action) : Controller := (machine.run c as).getD c

/-- The continuation, stopped after the first token and resumed. -/
def interrupted (first second : String) : Controller :=
  after ((after asked (handsOut 0 first)).stop.resume false).1 (handsOut 1 second)

theorem resumed_hello :
    (after asked (handsOut 0 "Hello, world")).previewText = visibleContent ("Hello" ++ ", world") ∧
      ((interrupted "Hello" ", world").previewText = (after asked (handsOut 0 "Hello, world")).previewText ↔
        Joins "Hello".toList ", world".toList) := by
  have hstart : Controller.new.start .autoComplete "a" ⟨1, 0⟩ true false = (asked, true) := rfl
  refine resumed_iff (fun k => rfl) hstart ?_ ?_
  · exact ⟨handsOut 0 "Hello, world", by decide, by decide +kernel, by decide⟩
  · refine ⟨after asked (handsOut 0 "Hello"), (after asked (handsOut 0 "Hello")).stop, "", false, ?_, ?_, ?_, ?_, ?_⟩
    · exact ⟨handsOut 0 "Hello", by decide, by decide +kernel, by decide⟩
    · decide +kernel
    · exact ⟨[], by decide, rfl, rfl⟩
    · decide +kernel
    · exact ⟨handsOut 1 ", world", by decide, by decide +kernel, by decide +kernel⟩

/-- Paused behind a space, the draft loses it. -/
theorem pause_drops_space :
    Outputs 0 asked ("Hello " ++ "world") (after asked (handsOut 0 "Hello world")) ∧
      Paused 0 asked "Hello " "world" (interrupted "Hello " "world") ∧
      (after asked (handsOut 0 "Hello world")).previewText = "Hello world" ∧
      (interrupted "Hello " "world").previewText = "Helloworld" := by
  refine ⟨⟨handsOut 0 "Hello world", by decide, by decide +kernel, by decide⟩, ?_, by decide +kernel, by decide +kernel⟩
  refine ⟨after asked (handsOut 0 "Hello "), (after asked (handsOut 0 "Hello ")).stop, "", false, ?_, ?_, ?_, ?_, ?_⟩
  · exact ⟨handsOut 0 "Hello ", by decide, by decide +kernel, by decide⟩
  · decide +kernel
  · exact ⟨[], by decide, rfl, rfl⟩
  · decide +kernel
  · exact ⟨handsOut 1 "world", by decide, by decide +kernel, by decide +kernel⟩

end Controller

end SynapsNotes.Editor
