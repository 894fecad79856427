import SynapsNotes.Runtime.Native

/-!
# No job misuses the library

`Sound T s`: no call so far was at fault, and the live objects are those the
actor's pointers and its batch hold, besides `T`, what the job that runs has
made for itself. A model is never freed before what is made from it.

Each call keeps `Sound` (`Sound.release`, `Sound.store`, `Sound.resetBatch`,
and `Working.calls`, `Working.bracket` for what a job does without touching
the pointers), hence each job, for whatever its calls come to. A job leaves
nothing behind but, where `strdup` fails among the copies of a template, the
strings copied before (`sound_run`).
-/

namespace SynapsNotes.Runtime.Native

open Framework

variable {T : Multiset (Object Kind)} {s : Actor} {f : Pointer → Option (Object Kind)} {p q b : Pointer}
  {o m : Object Kind}

/-! ## What the pointers hold -/

/-- What a pointer is assigned. -/
def Pointer.Fits : Pointer → Kind → Bool
  | .model, .model _ | .modelEmbed, .model _ | .modelOCR, .model _ => true
  | .context, .context false | .contextOCR, .context false | .contextEmbed, .context true => true
  | .visionOCRContext, .visionContext => true
  | _, _ => false

/-- Nothing is made from a context. -/
theorem Pointer.base_ne_of_base (hp : p.base ≠ none) : q.base ≠ some p := by
  revert p q
  decide

theorem Pointer.eq_context : q.base = some .model → q = .context := by
  revert q
  decide

theorem Pointer.eq_contextEmbed : q.base = some .modelEmbed → q = .contextEmbed := by
  revert q
  decide

theorem Pointer.eq_contextOCR : q.base = some .modelOCR → q = .contextOCR ∨ q = .visionOCRContext := by
  revert q
  decide

/-- A model is made from nothing, a context from the model that is held
beside it. -/
structure Shaped (f : Pointer → Option (Object Kind)) : Prop where
  fits : ∀ p o, f p = some o → p.Fits o.kind = true
  bases : ∀ p o, f p = some o → p.base = none → o.bases = []
  ofModel : ∀ p o b, f p = some o → p.base = some b → ∃ m, f b = some m ∧ o.bases = [m.serial]

namespace Shaped

theorem none : Shaped fun _ => none := ⟨nofun, nofun, nofun⟩

/-- What the pointers hold rests on what they hold. -/
theorem exists_of_restsOn (h : Shaped f) (hp : f p = some o) (hrest : o.RestsOn m) :
    ∃ b r, p.base = some b ∧ f b = some r ∧ m.serial = r.serial := by
  cases hb : p.base with
  | none =>
    rw [Object.RestsOn, h.bases p o hp hb] at hrest
    exact absurd hrest List.not_mem_nil
  | some b =>
    obtain ⟨r, hr, hbases⟩ := h.ofModel p o b hp hb
    rw [Object.RestsOn, hbases] at hrest
    exact ⟨b, r, rfl, hr, List.mem_singleton.mp hrest⟩

theorem restsOn (h : Shaped f) (hp : f p = some o) (hb : p.base = some b) (hm : f b = some m) : o.RestsOn m := by
  obtain ⟨r, hr, hbases⟩ := h.ofModel p o b hp hb
  obtain rfl := Option.some.inj (hm.symm.trans hr)
  rw [Object.RestsOn, hbases]
  exact List.mem_singleton_self _

/-- A pointer is cleared that nothing held is made from. -/
theorem clear (h : Shaped f) (hp : ∀ q, q.base = some p → f q = .none) : Shaped (Function.update f p .none) := by
  have hheld : ∀ q o, Function.update f p .none q = some o → f q = some o := by
    intro q o hq
    by_cases hne : q = p
    · subst hne
      rw [Function.update_self] at hq
      exact nomatch hq
    · rwa [Function.update_of_ne hne] at hq
  refine ⟨fun q o hq => h.fits q o (hheld q o hq), fun q o hq => h.bases q o (hheld q o hq), fun q o b hq hb => ?_⟩
  obtain ⟨m, hm, hbases⟩ := h.ofModel q o b (hheld q o hq) hb
  refine ⟨m, ?_, hbases⟩
  rw [Function.update_of_ne, hm]
  rintro rfl
  exact nomatch (hp q hb).symm.trans (hheld q o hq)

/-- A pointer that held nothing is set. -/
theorem set (h : Shaped f) (hp : f p = .none) (hfits : p.Fits o.kind = true)
    (hbases : o.bases = (p.base.bind f).toList.map (·.serial)) (hbase : ∀ b, p.base = some b → f b ≠ .none) :
    Shaped (Function.update f p (some o)) := by
  have hkeep : ∀ b m, f b = some m → Function.update f p (some o) b = some m := by
    intro b m hm
    rw [Function.update_of_ne, hm]
    rintro rfl
    exact nomatch hp.symm.trans hm
  have hcases : ∀ q r, Function.update f p (some o) q = some r → q = p ∧ r = o ∨ f q = some r := by
    intro q r hq
    by_cases hne : q = p
    · subst hne
      rw [Function.update_self] at hq
      exact .inl ⟨rfl, (Option.some.inj hq).symm⟩
    · rw [Function.update_of_ne hne] at hq
      exact .inr hq
  refine ⟨fun q r hq => ?_, fun q r hq hb => ?_, fun q r b hq hb => ?_⟩
  · rcases hcases q r hq with ⟨rfl, rfl⟩ | hq
    · exact hfits
    · exact h.fits q r hq
  · rcases hcases q r hq with ⟨rfl, rfl⟩ | hq
    · rw [hbases, hb]
      rfl
    · exact h.bases q r hq hb
  · rcases hcases q r hq with ⟨rfl, rfl⟩ | hq
    · obtain ⟨m, hm⟩ := Option.ne_none_iff_exists'.mp (hbase b hb)
      refine ⟨m, hkeep b m hm, ?_⟩
      rw [hbases, hb, Option.bind_some, hm]
      rfl
    · obtain ⟨m, hm, hr⟩ := h.ofModel q r b hq hb
      exact ⟨m, hkeep b m hm, hr⟩

end Shaped

/-! ## The invariant -/

/-- The live objects are those that pointers hold and others, which rest on
nothing. -/
structure Holds (f : Pointer → Option (Object Kind)) (U : Multiset (Object Kind)) (l : Ledger Kind) : Prop where
  owns : Owns (held f + U) l
  shaped : Shaped f
  bases : ∀ o ∈ U, o.bases = []

namespace Holds

variable {U : Multiset (Object Kind)} {l : Ledger Kind}

/-- The owned objects, with what a pointer holds in front. -/
theorem owns_pointer (h : Holds f U l) (hp : f p = some o) :
    Owns (o ::ₘ (held (Function.update f p none) + U)) l :=
  h.owns.congr (by rw [held_update_none hp, Multiset.cons_add])

/-- The owned objects, with another one in front. -/
theorem owns_other (h : Holds f (o ::ₘ U) l) : Owns (o ::ₘ (held f + U)) l :=
  h.owns.congr (by rw [Multiset.add_cons])

/-- No two pointers hold one object. -/
theorem pointer_inj (h : Holds f U l) (hp : f p = some o) (hq : f q = some m) (heq : m.serial = o.serial) : q = p := by
  by_contra hne
  refine (h.owns_pointer hp).serial_ne (Multiset.mem_add.mpr (.inl ?_)) heq
  exact mem_held (i := q) ((Function.update_of_ne hne _ _).trans hq)

/-- Where no model that is rested on is `o`, nothing that is owned rests on
`o`. -/
theorem not_restsOn (h : Holds f U l)
    (hbase : ∀ q b m, f q ≠ none → q.base = some b → f b = some m → o.serial ≠ m.serial) {r : Object Kind}
    (hr : r ∈ held f + U) : ¬ r.RestsOn o := by
  intro hrest
  rcases Multiset.mem_add.mp hr with hr | hr
  · obtain ⟨q, hq⟩ := exists_of_mem_held hr
    obtain ⟨b, m, hb, hm, heq⟩ := h.shaped.exists_of_restsOn hq hrest
    exact hbase q b m (hq ▸ Option.some_ne_none r) hb hm heq
  · rw [Object.RestsOn, h.bases r hr] at hrest
    exact absurd hrest List.not_mem_nil

/-- What a pointer holds is freed, once nothing made from it is held. -/
theorem clear (h : Holds f U l) (ho : f p = some o) (hp : ∀ q, q.base = some p → f q = none) :
    Holds (Function.update f p none) U (l.free o) := by
  refine ⟨(h.owns_pointer ho).free fun r hr => h.not_restsOn (fun q b m hq hb hm heq => ?_) ?_, h.shaped.clear hp,
    h.bases⟩
  · obtain rfl := h.pointer_inj ho hm heq.symm
    exact hq (hp q hb)
  · rw [held_update_none ho, Multiset.cons_add]
    exact Multiset.mem_cons_of_mem hr

/-- A pointer that holds nothing is assigned a new object. -/
theorem set (h : Holds f U l) (kind : Kind) (hp : f p = none) (hfits : p.Fits kind = true)
    (hbase : ∀ b, p.base = some b → f b ≠ none) :
    Holds (Function.update f p (some (l.fresh kind (p.base.bind f).toList))) U
      (l.make kind (p.base.bind f).toList) where
  owns := by
    refine (h.owns.make kind fun r hr => ?_).congr ?_
    · obtain ⟨b, hb, hm⟩ := Option.bind_eq_some_iff.mp (Option.mem_toList.mp hr)
      exact Multiset.mem_add.mpr (.inl (mem_held hm))
    · rw [held_update_some hp, Multiset.cons_add]
  shaped := h.shaped.set hp hfits rfl hbase
  bases := h.bases

theorem make (h : Holds f U l) (kind : Kind) : Holds f (l.fresh kind [] ::ₘ U) (l.make kind []) where
  owns := (h.owns.make_root kind).congr (by rw [Multiset.add_cons])
  shaped := h.shaped
  bases o ho := (Multiset.mem_cons.mp ho).elim (fun heq => heq ▸ rfl) (h.bases o)

theorem free (h : Holds f (o ::ₘ U) l) : Holds f U (l.free o) where
  owns := by
    refine h.owns_other.free fun r hr => h.not_restsOn (fun q b m _ _ hm heq => ?_) ?_
    · exact h.owns_other.serial_ne (Multiset.mem_add.mpr (.inl (mem_held hm))) heq.symm
    · rw [Multiset.add_cons]
      exact Multiset.mem_cons_of_mem hr
  shaped := h.shaped
  bases r hr := h.bases r (Multiset.mem_cons_of_mem hr)

theorem absorb (h : Holds f (o ::ₘ U) l) (hm : m ∈ U) : Holds f U (l.absorb m o) where
  owns := h.owns_other.absorb (Multiset.mem_add.mpr (.inr hm))
  shaped := h.shaped
  bases r hr := h.bases r (Multiset.mem_cons_of_mem hr)

theorem useAll (h : Holds f U l) {os : List (Object Kind)} (hos : ∀ o ∈ os, (∃ p, f p = some o) ∨ o ∈ U) :
    Holds f U (l.useAll os) where
  owns := h.owns.useAll fun o ho => Multiset.mem_add.mpr ((hos o ho).imp_left fun ⟨_, hp⟩ => mem_held hp)
  shaped := h.shaped
  bases := h.bases

end Holds

/-- The actor's pointers and its batch, and what a job has made besides. -/
structure Sound (T : Multiset (Object Kind)) (s : Actor) : Prop where
  holds : Holds s.pointer (s.batch ::ₘ T) s.library
  batch_kind : s.batch.kind = .batch

namespace Actor

theorem release_some (hp : s.pointer p = some o) :
    s.release p = { s.free o with pointer := Function.update s.pointer p none } := by
  unfold release
  rw [hp]

theorem release_none (hp : s.pointer p = none) : s.release p = s := by
  unfold release
  rw [hp]

@[simp] theorem pointer_release : (s.release p).pointer = Function.update s.pointer p none := by
  cases hp : s.pointer p with
  | none => rw [release_none hp, ← hp, Function.update_eq_self]
  | some o => rw [release_some hp]

@[simp] theorem pointer_store {kind : Kind} {bases : List (Object Kind)} :
    (s.store p kind bases).pointer = Function.update s.pointer p (some (s.library.fresh kind bases)) := rfl

end Actor

namespace Sound

theorem launch : Sound 0 Actor.launch where
  holds := Holds.make ⟨Owns.empty, Shaped.none, fun o ho => absurd ho (Multiset.notMem_zero o)⟩ .batch
  batch_kind := rfl

/-- A pointer is freed and cleared once nothing made from it is held. -/
theorem release (h : Sound T s) (hp : ∀ q, q.base = some p → s.pointer q = none) : Sound T (s.release p) := by
  cases ho : s.pointer p with
  | none => rwa [Actor.release_none ho]
  | some o =>
    rw [Actor.release_some ho]
    exact ⟨h.holds.clear ho hp, h.batch_kind⟩

/-- A pointer that holds nothing is assigned a new object. -/
theorem store (h : Sound T s) (kind : Kind) (hp : s.pointer p = none) (hfits : p.Fits kind = true)
    (hbase : ∀ b, p.base = some b → s.pointer b ≠ none) :
    Sound T (s.store p kind (p.base.bind s.pointer).toList) :=
  ⟨h.holds.set kind hp hfits hbase, h.batch_kind⟩

/-- Flags are no objects. -/
theorem flags (h : Sound T s) (stop : Bool) (gpu : Pointer → Bool) :
    Sound T { s with stopRequested := stop, gpuEnabled := gpu } :=
  ⟨h.holds, h.batch_kind⟩

theorem resetBatch (h : Sound T s) (capacity : Nat) : Sound T (s.resetBatch capacity) :=
  ⟨h.holds.free.make .batch, rfl⟩

theorem make_local (h : Sound T s) (kind : Kind) : Sound (s.library.fresh kind [] ::ₘ T) (s.make kind []) :=
  ⟨by rw [Multiset.cons_swap]; exact h.holds.make kind, h.batch_kind⟩

theorem free_local (h : Sound (o ::ₘ T) s) : Sound T (s.free o) :=
  ⟨Holds.free (by rw [Multiset.cons_swap]; exact h.holds), h.batch_kind⟩

end Sound

/-! ## What a job does for itself -/

/-- The pointers are as they were, and sound. -/
structure Working (f : Pointer → Option (Object Kind)) (T : Multiset (Object Kind)) (s : Actor) : Prop where
  sound : Sound T s
  pointer : s.pointer = f

namespace Working

variable {β : Type}

theorem flags (h : Working f T s) (stop : Bool) : Working f T { s with stopRequested := stop } :=
  ⟨h.sound.flags stop s.gpuEnabled, h.pointer⟩

/-- The objects that a job may work with. -/
def Usable (f : Pointer → Option (Object Kind)) (T : Multiset (Object Kind)) (o : Object Kind) : Prop :=
  (∃ p, f p = some o) ∨ o ∈ T

theorem Usable.mono (h : Usable f T o) : Usable f (m ::ₘ T) o := h.imp_right Multiset.mem_cons_of_mem

theorem usable_local : Usable f (o ::ₘ T) o := .inr (Multiset.mem_cons_self o T)

theorem calls (h : Working f T s) (os : List (Object Kind)) (hos : ∀ o ∈ os, o = s.batch ∨ Usable f T o) :
    Working f T (s.calls os) := by
  refine ⟨⟨h.sound.holds.useAll fun o ho => ?_, h.sound.batch_kind⟩, h.pointer⟩
  rcases hos o ho with rfl | ⟨p, hp⟩ | ho
  · exact .inr (Multiset.mem_cons_self _ _)
  · exact .inl ⟨p, h.pointer ▸ hp⟩
  · exact .inr (Multiset.mem_cons_of_mem ho)

theorem call (h : Working f T s) (ho : Usable f T o) : Working f T (s.calls [o]) :=
  h.calls [o] fun _ hr => .inr (List.mem_singleton.mp hr ▸ ho)

theorem resetBatch (h : Working f T s) (capacity : Nat) : Working f T (s.resetBatch capacity) :=
  ⟨h.sound.resetBatch capacity, h.pointer⟩

theorem make_local (h : Working f T s) (kind : Kind) : Working f (s.library.fresh kind [] ::ₘ T) (s.make kind []) :=
  ⟨h.sound.make_local kind, h.pointer⟩

theorem free_local (h : Working f (o ::ₘ T) s) : Working f T (s.free o) := ⟨h.sound.free_local, h.pointer⟩

/-- What is made for a part of a job is freed at its end, wherever that
is. -/
theorem bracket (h : Working f T s) (kind : Kind) {body : Object Kind → Actor → Actor × β}
    (hbody : ∀ o s, o.kind = kind → Working f (o ::ₘ T) s → Working f (o ::ₘ T) (body o s).1) :
    Working f T (s.bracket kind body).1 :=
  (hbody _ _ rfl (h.make_local kind)).free_local

theorem decodePrompt (ho : Usable f T o) (decodes : List Bool) (h : Working f T s) :
    Working f T (s.decodePrompt o decodes).1 := by
  induction decodes generalizing s with
  | nil => exact h
  | cons succeeds rest ih =>
    have hcalls : Working f T (s.calls [s.batch, o]) := h.calls _ fun r hr => by
      rcases List.mem_pair.mp hr with rfl | rfl
      · exact .inl rfl
      · exact .inr ho
    cases succeeds with
    | false => exact hcalls
    | true => exact ih hcalls

theorem passes {model context sampler : Object Kind} (hm : Usable f T model) (hc : Usable f T context)
    (hs : Usable f T sampler) (ps : List Actor.Pass) (h : Working f T s) :
    Working f T (s.passes model context sampler ps).1 := by
  have hsample : ∀ r ∈ [sampler, context, model], Usable f T r := by
    simp only [List.mem_cons, List.not_mem_nil, or_false]
    rintro r (rfl | rfl | rfl) <;> assumption
  induction ps generalizing s with
  | nil => exact h
  | cons pass rest ih =>
    cases pass with
    | endOfGeneration => exact h.calls _ fun r hr => .inr (hsample r hr)
    | stopSequence => exact h.calls _ fun r hr => .inr (hsample r hr)
    | decoded succeeds =>
      have hcalls : Working f T (s.calls ([sampler, context, model] ++ [s.batch])) := h.calls _ fun r hr =>
        (List.mem_append.mp hr).elim (fun hr => .inr (hsample r hr)) fun hr => .inl (List.mem_singleton.mp hr)
      cases succeeds with
      | false => exact hcalls
      | true => exact ih hcalls

theorem addSamplers (n : Nat) (h : Working f (o ::ₘ T) s) : Working f (o ::ₘ T) (s.addSamplers o n) := by
  induction n generalizing s with
  | zero => exact h
  | succ n ih =>
    have hmake : Holds _ (_ ::ₘ (s.batch ::ₘ o ::ₘ T)) _ := h.sound.holds.make .sampler
    refine ih ⟨⟨hmake.absorb ?_, h.sound.batch_kind⟩, h.pointer⟩
    exact Multiset.mem_cons_of_mem (Multiset.mem_cons_self o T)

theorem generate {model context : Object Kind} (hm : Usable f T model) (hc : Usable f T context) (samplers : Nat)
    (ps : List Actor.Pass) (h : Working f T s) : Working f T (s.generate model context samplers ps).1 :=
  h.bracket .sampler fun _ _ _ h => (h.addSamplers samplers).passes hm.mono hc.mono usable_local ps

theorem generateText {model context : Object Kind} (hm : Usable f T model) (hc : Usable f T context) (samplers : Nat)
    (g : Actor.Generation) (h : Working f T s) : Working f T (s.generateText model context samplers g).1 := by
  have hcalls : Working f T (s.calls [model]) := h.call hm
  have hfeed := ((hcalls.call hc).resetBatch g.chunkSize).decodePrompt hc g.prompt
  unfold Actor.generateText
  split
  · exact hcalls
  · dsimp only
    split <;> rename_i heq <;> rw [heq] at hfeed
    · exact hfeed
    · exact hfeed.generate hm hc samplers g.passes

theorem embedText {model context : Object Kind} (hm : Usable f T model) (hc : Usable f T context)
    (hrests : context.kind = .context true → context.RestsOn model) (g : Actor.Generation) (h : Working f T s) :
    Working f T (s.embedText context model g).1 := by
  have hcalls : Working f T (s.calls [model]) := h.call hm
  have hfeed := ((hcalls.call hc).resetBatch g.chunkSize).decodePrompt hc g.prompt
  unfold Actor.embedText
  split
  · exact hcalls
  · dsimp only
    split <;> rename_i heq <;> rw [heq] at hfeed
    · exact hfeed
    · have hread := hfeed.call hc
      unfold Actor.readEmbeddings
      split
      · rename_i hkind
        have hmodel := hread.call hm
        have hholds := hmodel.sound.holds
        exact ⟨⟨⟨hholds.owns.require (hrests hkind), hholds.shaped, hholds.bases⟩, hmodel.sound.batch_kind⟩,
          hmodel.pointer⟩
      · exact hread

/-- The copies of a template are owned besides, until they are freed. -/
theorem copyMessages (copies : List Actor.Copies) (h : Working f T s) :
    Working f ((s.copyMessages copies).2.1 + T) (s.copyMessages copies).1 := by
  induction copies generalizing s T with
  | nil => exact (zero_add T).symm ▸ h
  | cons copies rest ih =>
    unfold Actor.copyMessages
    cases copies.role with
    | false => exact (zero_add T).symm ▸ h
    | true =>
      have hrole := h.make_local .cString
      cases copies.content with
      | false => exact hrole
      | true =>
        have hrest := ih (hrole.make_local .cString)
        have hac : ∀ (a b : Object Kind) (L : List (Object Kind)),
            (↑L + (b ::ₘ (a ::ₘ T)) : Multiset (Object Kind)) = ↑(a :: b :: L) + T := fun a b L => by
          rw [Multiset.add_cons, Multiset.add_cons, Multiset.cons_swap, ← Multiset.cons_coe, ← Multiset.cons_coe,
            Multiset.cons_add, Multiset.cons_add]
        rw [hac] at hrest
        exact hrest

theorem freeAll {os : List (Object Kind)} (h : Working f (os + T) s) : Working f T (s.freeAll os) := by
  induction os generalizing s with
  | nil => exact (zero_add T) ▸ h
  | cons o os ih =>
    rw [← Multiset.cons_coe, Multiset.cons_add] at h
    exact ih h.free_local

end Working

/-- The strings that `applyTemplate` leaves behind. -/
def Actor.lost (s : Actor) (copies : List Actor.Copies) : List (Object Kind) :=
  if (s.copyMessages copies).2.2 then [] else (s.copyMessages copies).2.1

theorem Working.applyTemplate (hm : (∃ p, f p = some m) ∨ m ∈ T) (copies : List Actor.Copies) (h : Working f T s) :
    Working f (s.lost copies + T) (s.applyTemplate (some m) copies) := by
  have hcopy := h.copyMessages copies
  cases copies with
  | nil => exact (zero_add T).symm ▸ h
  | cons c cs =>
    rcases hr : s.copyMessages (c :: cs) with ⟨s', strings, all⟩
    have happly : s.applyTemplate (some m) (c :: cs) = if all then (s'.calls (m :: strings)).freeAll strings else s' := by
      simp only [Actor.applyTemplate, List.isEmpty_cons, Bool.false_eq_true, if_false, hr]
      cases all <;> rfl
    rw [hr] at hcopy
    rw [happly, Actor.lost, hr]
    cases all with
    | false => exact hcopy
    | true =>
      refine (zero_add T).symm ▸ (hcopy.calls _ fun o ho => .inr ?_).freeAll
      rcases List.mem_cons.mp ho with rfl | ho
      · exact hm.imp_right fun hm => Multiset.mem_add.mpr (.inr hm)
      · exact .inr (Multiset.mem_add.mpr (.inl ho))

/-! ## The jobs -/

namespace Sound

theorem working (h : Sound T s) : Working s.pointer T s := ⟨h, rfl⟩

theorem completion (h : Sound T s) (g : Actor.Generation) : Working s.pointer T (s.completion g).1 := by
  unfold Actor.completion
  split
  · rename_i m c hm hc
    have hfeed := (((h.working.flags false).calls [m, c] fun r hr => ?_).resetBatch
      g.chunkSize).decodePrompt (.inl ⟨_, hc⟩) g.prompt
    · dsimp only
      split <;> rename_i heq <;> rw [heq] at hfeed
      · exact hfeed
      · exact hfeed.generate (.inl ⟨_, hm⟩) (.inl ⟨_, hc⟩) 4 g.passes
    · rcases List.mem_pair.mp hr with rfl | rfl
      · exact .inr (.inl ⟨_, hm⟩)
      · exact .inr (.inl ⟨_, hc⟩)
  · exact h.working

theorem embedWithEmbeddingModel (h : Sound T s) (g : Actor.Generation) :
    Working s.pointer T (s.embedWithEmbeddingModel g).1 := by
  unfold Actor.embedWithEmbeddingModel
  split
  · rename_i c m hc hm
    exact h.working.embedText (.inl ⟨_, hm⟩) (.inl ⟨_, hc⟩) (fun _ => h.holds.shaped.restsOn hc rfl hm) g
  · exact h.working

/-- The context of the embedding model is the only one with embeddings, so
they are read as that model's even where the chat model stands in for a
context that is missing. -/
theorem embed (h : Sound T s) (g : Actor.Generation) : Working s.pointer T (s.embed g).1 := by
  unfold Actor.embed
  split
  · rename_i c m hc hm
    have hmodel : ∃ p, s.pointer p = some m := by
      rcases Option.or_eq_some_iff.mp hm with hm | ⟨-, hm⟩ <;> exact ⟨_, hm⟩
    rcases Option.or_eq_some_iff.mp hc with hc | ⟨-, hc⟩
    · obtain ⟨m', hm', -⟩ := h.holds.shaped.ofModel _ _ _ hc rfl
      obtain rfl : m' = m := by
        rw [hm', Option.some_or] at hm
        exact Option.some.inj hm
      exact h.working.embedText (.inl hmodel) (.inl ⟨_, hc⟩) (fun _ => h.holds.shaped.restsOn hc rfl hm') g
    · refine h.working.embedText (.inl hmodel) (.inl ⟨_, hc⟩) (fun hkind => ?_) g
      have hfits := h.holds.shaped.fits _ _ hc
      rw [hkind] at hfits
      exact nomatch hfits
  · exact h.working

theorem loadFromFile (h : Sound T s) (hp : s.pointer p = none) (hbase : p.base = none) {file : ModelId}
    (hfits : p.Fits (.model file) = true) (lowMemory : Bool) (answer : LoadAnswer) :
    Sound T (s.loadFromFile p file lowMemory answer) := by
  have hstore : ∀ gpu, Sound T ({ s with gpuEnabled := gpu }.store p (.model file) []) := by
    intro gpu
    have := (h.flags s.stopRequested gpu).store (.model file) hp hfits fun b hb => nomatch hbase.symm.trans hb
    rwa [hbase] at this
  have hcpu : Sound T
      (let s := { s with gpuEnabled := Function.update s.gpuEnabled p false }
       if answer.loadsOnCPU then s.store p (.model file) [] else s) := by
    dsimp only
    split
    · exact hstore _
    · exact h.flags s.stopRequested _
  unfold Actor.loadFromFile
  split
  · exact hcpu
  · split
    · exact (hstore s.gpuEnabled).flags s.stopRequested _
    · exact hcpu

theorem pointer_loadFromFile {file : ModelId} {lowMemory : Bool} {answer : LoadAnswer} (hne : q ≠ p) :
    (s.loadFromFile p file lowMemory answer).pointer q = s.pointer q := by
  unfold Actor.loadFromFile
  repeat' split
  all_goals first | rfl | exact Function.update_of_ne hne _ _

theorem loadPair (h : Sound T s) {pm pc : Pointer} (hm : s.pointer pm = none) (hc : s.pointer pc = none)
    (hpm : pm.base = none) (hpc : pc.base = some pm) (file : ModelId) (embeddings : Bool)
    (hfm : pm.Fits (.model file) = true) (hfc : pc.Fits (.context embeddings) = true) (lowMemory : Bool)
    (answer : LoadAnswer) : Sound T (s.loadPair pm pc embeddings file lowMemory answer).1 := by
  have hload := h.loadFromFile hm hpm hfm lowMemory answer
  have hne : pc ≠ pm := by
    rintro rfl
    exact nomatch hpm.symm.trans hpc
  have hctx : (s.loadFromFile pm file lowMemory answer).pointer pc = none := (pointer_loadFromFile hne).trans hc
  unfold Actor.loadPair
  dsimp only
  split
  · exact hload
  · rename_i m hsome
    split
    · have := hload.store (.context embeddings) hctx hfc fun b hb => by
        obtain rfl := Option.some.inj (hpc.symm.trans hb)
        exact hsome ▸ Option.some_ne_none m
      rw [hpc, Option.bind_some, hsome] at this
      exact this
    · exact hload

/-- Nothing rests on a context, so it can be freed. -/
theorem releaseContext (h : Sound T s) (hp : p.base ≠ none) : Sound T (s.release p) :=
  h.release fun _ hq => absurd hq (Pointer.base_ne_of_base hp)

/-- The chat model's pointers are freed. -/
theorem releaseChat (h : Sound T s) : Sound T ((s.release .context).release .model) := by
  refine (h.releaseContext (by decide)).release fun q hq => ?_
  obtain rfl := Pointer.eq_context hq
  rw [Actor.pointer_release, Function.update_self]

theorem releaseEmbedding (h : Sound T s) : Sound T ((s.release .contextEmbed).release .modelEmbed) := by
  refine (h.releaseContext (by decide)).release fun q hq => ?_
  obtain rfl := Pointer.eq_contextEmbed hq
  rw [Actor.pointer_release, Function.update_self]

theorem releaseOCR (h : Sound T s) :
    Sound T (((s.release .visionOCRContext).release .contextOCR).release .modelOCR) := by
  refine ((h.releaseContext (by decide)).releaseContext (by decide)).release fun q hq => ?_
  rcases Pointer.eq_contextOCR hq with rfl | rfl
  · rw [Actor.pointer_release, Function.update_self]
  · rw [Actor.pointer_release, Actor.pointer_release, Function.update_of_ne (by decide), Function.update_self]

theorem loadModel (h : Sound T s) (file : ModelId) (lowMemory : Bool) (answer : LoadAnswer) :
    Sound T (s.loadModel file lowMemory answer).1 := by
  unfold Actor.loadModel
  repeat' split
  · exact h
  · exact h
  · exact h.releaseChat.loadPair (by simp) (by simp) rfl rfl _ _ rfl rfl lowMemory answer

theorem loadEmbeddingModel (h : Sound T s) (file : ModelId) (lowMemory : Bool) (answer : LoadAnswer) :
    Sound T (s.loadEmbeddingModel file lowMemory answer).1 := by
  unfold Actor.loadEmbeddingModel
  repeat' split
  · exact h
  · exact h
  · exact h.releaseEmbedding.loadPair (by simp) (by simp) rfl rfl _ _ rfl rfl lowMemory answer

/-- A candidate's context is kept, or freed at once. -/
theorem tryCandidates (hm : s.pointer .modelOCR = some m) (candidates : List Actor.VisionAnswer) (h : Sound T s)
    (hv : s.pointer .visionOCRContext = none) : Sound T (s.tryCandidates m candidates) := by
  induction candidates generalizing s with
  | nil => exact h
  | cons answer rest ih =>
    have hstore := h.store .visionContext hv rfl fun b hb => by
      obtain rfl := Option.some.inj hb
      exact hm ▸ Option.some_ne_none m
    have hbases : (Pointer.visionOCRContext.base.bind s.pointer).toList = [m] := by
      show (s.pointer .modelOCR).toList = [m]
      rw [hm]
      rfl
    rw [hbases] at hstore
    set ctx := s.library.fresh .visionContext [m]
    have hvision : (s.store .visionOCRContext .visionContext [m]).pointer .visionOCRContext = some ctx := by
      rw [Actor.pointer_store, Function.update_self]
    have hcalls := hstore.working.call (.inl ⟨.visionOCRContext, hvision⟩)
    unfold Actor.tryCandidates
    dsimp only
    split
    · exact ih hm h hv
    · split
      · exact hcalls.sound
      · refine ih hm ?_ hv
        have hfree := hcalls.sound.releaseContext (p := .visionOCRContext) (by decide)
        have heq : Function.update (s.store .visionOCRContext .visionContext [m]).pointer .visionOCRContext none =
            s.pointer := by
          rw [Actor.pointer_store, Function.update_idem, ← hv, Function.update_eq_self]
        have hholds : ((s.store .visionOCRContext .visionContext [m]).calls [ctx]).pointer .visionOCRContext =
            some ctx := hvision
        rw [Actor.release_some hholds, Actor.calls, heq] at hfree
        exact hfree

theorem loadOCRModel (h : Sound T s) (file : ModelId) (lowMemory : Bool) (answer : LoadAnswer)
    (candidates : List Actor.VisionAnswer) : Sound T (s.loadOCRModel file lowMemory answer candidates).1 := by
  have hpair := h.releaseOCR.loadPair (by simp) (by simp) (show Pointer.modelOCR.base = none from rfl)
    (show Pointer.contextOCR.base = some .modelOCR from rfl) file false rfl rfl lowMemory answer
  unfold Actor.loadOCRModel
  split
  · exact h
  split
  · exact h
  · dsimp only
    split <;> rename_i heq <;> rw [heq] at hpair
    · exact hpair
    · split
      · rename_i m hm
        refine tryCandidates ?_ candidates (hpair.releaseContext (by decide)) (by simp)
        simpa using hm
      · exact hpair

theorem unloadChat (h : Sound T s) : Sound T s.unloadChat := (h.flags true s.gpuEnabled).releaseChat.flags _ _

theorem unloadEmbedding (h : Sound T s) : Sound T s.unloadEmbedding := h.releaseEmbedding.flags _ _

theorem unloadOCRModel (h : Sound T s) : Sound T s.unloadOCRModel := h.releaseOCR.flags _ _

end Sound

/-- The copies of a template that the job makes. -/
def Job.copies (s : Actor) : Job → List Actor.Copies
  | .applyTemplate copies => if (s.pointer .model).isSome then copies else []
  | .extractTextFromImageData a =>
    if a.isEmpty then []
    else if (s.pointer .contextOCR).isSome && (s.pointer .modelOCR).isSome && (s.pointer .visionOCRContext).isSome then
      a.copies
    else []
  | .refineOCRText isBlank copies _ =>
    if isBlank then []
    else if (s.pointer .contextOCR).isSome && (s.pointer .modelOCR).isSome then copies
    else []
  | _ => []

namespace Sound

theorem applyTemplate (h : Sound T s) (copies : List Actor.Copies) :
    Working s.pointer (s.lost ((Job.applyTemplate copies).copies s) + T)
      (s.applyTemplate (s.pointer .model) copies) := by
  dsimp only [Job.copies]
  cases hm : s.pointer .model with
  | none => exact (zero_add T).symm ▸ h.working
  | some m => exact h.working.applyTemplate (.inl ⟨_, hm⟩) copies

theorem readImage {model context vision prompt bitmap chunks : Object Kind} (hm : Working.Usable f T model)
    (hc : Working.Usable f T context) (hv : Working.Usable f T vision) (hp : Working.Usable f T prompt)
    (hb : Working.Usable f T bitmap) (hch : Working.Usable f T chunks) (a : Actor.ImageAnswer) (h : Working f T s) :
    Working f T (s.readImage a model context vision prompt bitmap chunks).1 := by
  have htokenize := h.calls [vision, chunks, prompt, bitmap] fun o ho => .inr (by
    simp only [List.mem_cons, List.not_mem_nil, or_false] at ho
    rcases ho with rfl | rfl | rfl | rfl <;> assumption)
  have heval := htokenize.calls [context, vision, chunks] fun o ho => .inr (by
    simp only [List.mem_cons, List.not_mem_nil, or_false] at ho
    rcases ho with rfl | rfl | rfl <;> assumption)
  unfold Actor.readImage
  split
  · exact htokenize
  · dsimp only
    split
    · exact heval
    · exact heval.generate hm hc 0 a.passes

theorem extractTextFromImageData (h : Sound T s) (a : Actor.ImageAnswer) :
    Working s.pointer (s.lost ((Job.extractTextFromImageData a).copies s) + T) (s.extractTextFromImageData a).1 := by
  have hzero : Working s.pointer (s.lost [] + T) s := (zero_add T).symm ▸ h.working
  unfold Actor.extractTextFromImageData
  dsimp only [Job.copies]
  cases a.isEmpty with
  | true => exact hzero
  | false =>
  rw [if_neg Bool.false_ne_true, if_neg Bool.false_ne_true]
  cases hc : s.pointer .contextOCR with
  | none => exact hzero
  | some context =>
    cases hm : s.pointer .modelOCR with
    | none => exact hzero
    | some model =>
      cases hv : s.pointer .visionOCRContext with
      | none => exact hzero
      | some vision =>
        have htemplate := h.working.applyTemplate (.inl ⟨_, hm⟩) a.copies
        dsimp only
        show Working _ (s.lost a.copies + T) _
        split
        · exact htemplate
        refine htemplate.bracket .cString fun prompt s _ hs => ?_
        have hbitmap := hs.call (.inl ⟨_, hv⟩)
        split
        · exact hbitmap
        refine hbitmap.bracket .bitmap fun bitmap s _ hs => ?_
        split
        · exact hs
        refine hs.bracket .chunks fun chunks s _ hs => ?_
        exact readImage (.inl ⟨_, hm⟩) (.inl ⟨_, hc⟩) (.inl ⟨_, hv⟩) Working.usable_local.mono.mono
          Working.usable_local.mono Working.usable_local a hs

theorem refineOCRText (h : Sound T s) (isBlank : Bool) (copies : List Actor.Copies) (g : Actor.Generation) :
    Working s.pointer (s.lost ((Job.refineOCRText isBlank copies g).copies s) + T)
      (s.refineOCRText isBlank copies g).1 := by
  have hzero : Working s.pointer (s.lost [] + T) s := (zero_add T).symm ▸ h.working
  unfold Actor.refineOCRText
  dsimp only [Job.copies]
  cases hc : s.pointer .contextOCR with
  | none => split <;> exact hzero
  | some context =>
    cases hm : s.pointer .modelOCR with
    | none => split <;> exact hzero
    | some model =>
      dsimp only
      cases isBlank with
      | true => exact hzero
      | false => exact (h.working.applyTemplate (.inl ⟨_, hm⟩) copies).generateText (.inl ⟨_, hm⟩) (.inl ⟨_, hc⟩) 0 g

/-- What a job does to the library: nothing it must not, and it leaves
nothing behind but the copies that a template lost. -/
theorem run (h : Sound T s) (job : Job) : Sound (s.lost (job.copies s) + T) (s.run job) := by
  have hzero : ∀ {s' : Actor}, Sound T s' → Sound (s.lost [] + T) s' := fun h => (zero_add T).symm ▸ h
  cases job with
  | loadModel file lowMemory answer => exact hzero (h.loadModel file lowMemory answer)
  | loadEmbeddingModel file lowMemory answer => exact hzero (h.loadEmbeddingModel file lowMemory answer)
  | loadOCRModel file lowMemory answer candidates => exact hzero (h.loadOCRModel file lowMemory answer candidates)
  | unloadChat => exact hzero h.unloadChat
  | unloadEmbedding => exact hzero h.unloadEmbedding
  | unloadOCRModel => exact hzero h.unloadOCRModel
  | unload => exact hzero h.unloadChat.unloadEmbedding.unloadOCRModel
  | completion g => exact hzero (h.completion g).sound
  | stopCompletion => exact hzero (h.flags true s.gpuEnabled)
  | embedWithEmbeddingModel g => exact hzero (h.embedWithEmbeddingModel g).sound
  | embed g => exact hzero (h.embed g).sound
  | applyTemplate copies => exact (h.applyTemplate copies).sound
  | extractTextFromImageData a => exact (h.extractTextFromImageData a).sound
  | refineOCRText isBlank copies g => exact (h.refineOCRText isBlank copies g).sound

/-- What the actor leaves live when it ends is what jobs left behind. -/
theorem deinit (h : Sound T s) : Owns T s.deinit.library := by
  have hheld : ∀ {f : Pointer → Option (Object Kind)} {s' : Actor} (p : Pointer), Holds f T s'.library →
      s'.pointer = s.pointer → f p = s.pointer p → (∀ q, q.base = some p → f q = none) →
      Holds (Function.update f p none) T (s'.freeHeld p).library ∧ (s'.freeHeld p).pointer = s.pointer := by
    intro f s' p hf hsame hp hbase
    unfold Actor.freeHeld
    rw [hsame]
    cases ho : s.pointer p with
    | none =>
      have hupdate : Function.update f p none = f := by rw [← hp.trans ho, Function.update_eq_self]
      exact ⟨hupdate.symm ▸ hf, hsame⟩
    | some o => exact ⟨hf.clear (hp.trans ho) hbase, hsame⟩
  have h₀ : Holds s.pointer T (s.free s.batch).library := h.holds.free
  have hcontext : ∀ {f : Pointer → Option (Object Kind)} {p q : Pointer}, p.base ≠ none → q.base = some p →
      f q = none := fun hp hq => absurd hq (Pointer.base_ne_of_base hp)
  obtain ⟨h₁, e₁⟩ := hheld .context h₀ rfl rfl fun q => hcontext (by decide)
  obtain ⟨h₂, e₂⟩ := hheld .model h₁ e₁ rfl fun q hq => by
    obtain rfl := Pointer.eq_context hq
    exact Function.update_self ..
  obtain ⟨h₃, e₃⟩ := hheld .contextEmbed h₂ e₂ rfl fun q => hcontext (by decide)
  obtain ⟨h₄, e₄⟩ := hheld .modelEmbed h₃ e₃ rfl fun q hq => by
    obtain rfl := Pointer.eq_contextEmbed hq
    exact Function.update_self ..
  obtain ⟨h₅, e₅⟩ := hheld .visionOCRContext h₄ e₄ rfl fun q => hcontext (by decide)
  obtain ⟨h₆, e₆⟩ := hheld .contextOCR h₅ e₅ rfl fun q => hcontext (by decide)
  obtain ⟨h₇, -⟩ := hheld .modelOCR h₆ e₆ rfl fun q hq => by
    rcases Pointer.eq_contextOCR hq with rfl | rfl
    · exact Function.update_self ..
    · exact (Function.update_of_ne (by decide) ..).trans (Function.update_self ..)
  refine h₇.owns.congr ?_
  have hnone : held (fun _ : Pointer => (none : Option (Object Kind))) = 0 := Finset.sum_const_zero
  rw [show (Function.update _ Pointer.modelOCR none : Pointer → Option (Object Kind)) = fun _ => none by
    funext q
    cases q <;> simp, hnone, zero_add]

end Sound

/-! ## The strings that are lost -/

/-- No copy of a template's strings fails once one is made. -/
def Copied (copies : List Actor.Copies) : Prop :=
  (∀ c ∈ copies, c.role = true ∧ c.content = true) ∨ ∀ c ∈ copies.head?, c.role = false

namespace Actor

theorem kind_of_mem_copyMessages (copies : List Copies) :
    ∀ o ∈ (s.copyMessages copies).2.1, o.kind = .cString := by
  induction copies generalizing s with
  | nil => exact fun o ho => absurd ho List.not_mem_nil
  | cons c cs ih =>
    unfold copyMessages
    split
    · exact fun o ho => absurd ho List.not_mem_nil
    · dsimp only
      split
      · exact fun o ho => List.mem_singleton.mp ho ▸ rfl
      · intro o ho
        rcases List.mem_cons.mp ho with rfl | ho
        · rfl
        rcases List.mem_cons.mp ho with rfl | ho
        · rfl
        · exact ih o ho

theorem copyMessages_all (copies : List Copies) :
    (s.copyMessages copies).2.2 = true ↔ ∀ c ∈ copies, c.role = true ∧ c.content = true := by
  induction copies generalizing s with
  | nil => exact ⟨fun _ c hc => absurd hc List.not_mem_nil, fun _ => rfl⟩
  | cons c cs ih =>
    rw [List.forall_mem_cons]
    unfold copyMessages
    cases c.role with
    | false => simp
    | true =>
      cases c.content with
      | false => simp
      | true => exact ih.trans (and_iff_right ⟨rfl, rfl⟩).symm

theorem copyMessages_eq_nil (copies : List Copies) :
    (s.copyMessages copies).2.1 = [] ↔ ∀ c ∈ copies.head?, c.role = false := by
  cases copies with
  | nil => exact ⟨fun _ c hc => (nomatch hc), fun _ => rfl⟩
  | cons c cs =>
    simp only [List.head?_cons, Option.mem_some_iff, forall_eq']
    unfold copyMessages
    cases c.role <;> cases c.content <;> simp

theorem lost_eq_nil_iff (copies : List Copies) : s.lost copies = [] ↔ Copied copies := by
  unfold lost Copied
  rw [← copyMessages_all (s := s), ← copyMessages_eq_nil (s := s)]
  split
  · rename_i hall
    exact ⟨fun _ => .inl hall, fun _ => rfl⟩
  · rename_i hall
    exact ⟨.inr, fun h => h.resolve_left hall⟩

theorem kind_of_mem_lost {copies : List Copies} (ho : o ∈ s.lost copies) : o.kind = .cString := by
  unfold lost at ho
  split at ho
  · exact absurd ho List.not_mem_nil
  · exact kind_of_mem_copyMessages copies o ho

end Actor

/-! ## Every order of jobs -/

/-- No call was at fault, the pointers hold live objects, and nothing else is
live but the batch and strings; and the same is left to say of the end. -/
structure MemorySafe (s : Actor) : Prop where
  noFault : s.library.fault = false
  noDangling : ∀ p o, s.pointer p = some o → o ∈ s.library.live
  noneLost : ∀ o ∈ s.library.live, o = s.batch ∨ (∃ p, s.pointer p = some o) ∨ o.kind = .cString
  deinit_noFault : s.deinit.library.fault = false
  deinit_live : ∀ o ∈ s.deinit.library.live, o.kind = .cString

theorem Sound.memorySafe (h : Sound T s) (hT : ∀ o ∈ T, o.kind = .cString) : MemorySafe s where
  noFault := h.holds.owns.sound
  noDangling p o hp := h.holds.owns.live_eq ▸ Multiset.mem_add.mpr (.inl (mem_held hp))
  noneLost o ho := by
    rw [h.holds.owns.live_eq] at ho
    rcases Multiset.mem_add.mp ho with ho | ho
    · exact .inr (.inl (exists_of_mem_held ho))
    rcases Multiset.mem_cons.mp ho with rfl | ho
    · exact .inl rfl
    · exact .inr (.inr (hT o ho))
  deinit_noFault := h.deinit.sound
  deinit_live o ho := hT o (h.deinit.live_eq ▸ ho)

/-- Whatever jobs run, in whatever order and with whatever outcome of each
call, the actor misuses no object of the library, and when it ends gives
back all of them but strings of templates. -/
theorem memorySafe_always (jobs : List Job) : actor.Always MemorySafe Actor.launch jobs := by
  refine (Machine.always_of_invariant (I := fun s => ∃ T, Sound T s ∧ ∀ o ∈ T, o.kind = .cString) ?_
    ⟨0, Sound.launch, fun o ho => absurd ho (Multiset.notMem_zero o)⟩ jobs).mono fun s ⟨T, h, hT⟩ => h.memorySafe hT
  rintro s job s' ⟨T, h, hT⟩ hstep
  obtain rfl := Option.some.inj hstep
  refine ⟨_, h.run job, fun o ho => (Multiset.mem_add.mp ho).elim Actor.kind_of_mem_lost (hT o)⟩

/-- The actor gives back everything exactly when no template's copying fails
half-way. -/
theorem leakFree_iff (jobs : List Job) :
    actor.Always (fun s => s.deinit.library.live = 0) Actor.launch jobs ↔
      actor.Meets (fun s job => Copied (job.copies s)) Actor.launch jobs := by
  refine Machine.always_iff_meets (I := Sound 0) (fun s h => h.deinit.live_eq) ?_ ?_ Sound.launch jobs
  · intro s job s' h hcopied hstep
    obtain rfl := Option.some.inj hstep
    have hrun := h.run job
    rwa [(Actor.lost_eq_nil_iff _).mpr hcopied] at hrun
  · intro s job s' h hstep hlive
    obtain rfl := Option.some.inj hstep
    rw [(h.run job).deinit.live_eq, add_zero] at hlive
    exact (Actor.lost_eq_nil_iff _).mp ((Multiset.coe_eq_zero _).mp hlive)

end SynapsNotes.Runtime.Native
