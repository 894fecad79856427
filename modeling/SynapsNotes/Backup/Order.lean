import SynapsNotes.Backup.RoundTrip
import SynapsNotes.Chat.Session

/-!
# The order of a conversation after a restore

`loadMessages` shows a session's messages by `createdAt`, which is all that
records their order. A backup carries it to the second, so two messages of
one second come back with equal dates, and then in any order.

`orderKept_iff` is the exact condition for the order to survive.
-/

namespace SynapsNotes.Backup

open Framework Chat Chat.ViewModel

variable {E J : Type}

/-- `t` is what a backup of `s` restores to. -/
def Restored (codec : PayloadCodec E J) (c : BackupContext) (ci : ImportContext) (now : Date)
    (s t : Store E) : Prop :=
  ∃ archive, exportZip codec c now true s = .ok archive ∧
    importZip codec ci (some archive) (Store.empty E) = .ok t

/-- Every session of `s` shows its messages in one and the same order on `s`
and on `t`, whatever order the stores give to messages of equal dates.
Messages that are new to the session in `t` are passed over. -/
def OrderKept (s t : Store E) : Prop :=
  ∀ x ∈ s.sessions, ∀ (c c' : ModelContext) (v v' : ViewModel E), v.store = s → v'.store = t →
    (∃ l, c'.fetchMessages t.messages (some x.id) = .ok l) →
      let before := (loadMessages c x v).chatMessages.map ChatMessage.id
      let after := (loadMessages c' x v').chatMessages.map ChatMessage.id
      after.filter (· ∈ before) = before

/-- No two messages of one session were created within one second. -/
def SecondsApart (s : Store E) : Prop :=
  ∀ x ∈ s.sessions, ∀ m ∈ s.messages, ∀ m' ∈ s.messages, m.session = some x.id → m'.session = some x.id →
    wholeSeconds m.createdAt = wholeSeconds m'.createdAt → m = m'

instance (s : Store E) : Decidable (SecondsApart s) :=
  inferInstanceAs (Decidable (∀ x ∈ s.sessions, ∀ m ∈ s.messages, ∀ m' ∈ s.messages,
    m.session = some x.id → m'.session = some x.id →
      wholeSeconds m.createdAt = wholeSeconds m'.createdAt → m = m'))

/-- `g` carries the messages of `s` over to `t`, those of a session of `s` in
their session. -/
structure Carried (g : ChatMessage → ChatMessage) (s t : Store E) : Prop where
  messages : t.messages.Perm (s.messages.map g)
  id : ∀ m, (g m).id = m.id
  createdAt : ∀ m, (g m).createdAt = wholeSeconds m.createdAt
  session : ∀ x ∈ s.sessions, ∀ m, m.session = some x.id → (g m).session = some x.id

theorem Restored.carried {codec : PayloadCodec E J} {c : BackupContext} {ci : ImportContext} {now : Date}
    {s t : Store E} (h : Restored codec c ci now s t) : ∃ g, Carried g s t := by
  obtain ⟨archive, hexport, himport⟩ := h
  obtain ⟨fetched, hfetch, hexport⟩ := bind_eq_ok.mp hexport
  obtain ⟨data, hencode, hexport⟩ := bind_eq_ok.mp hexport
  cases hexport
  obtain ⟨data', hencode', hdecode⟩ := codec.roundTrip (exportPayload now fetched)
  rw [hencode] at hencode'
  cases hencode'
  obtain ⟨payload, hpayload, himport⟩ := bind_eq_ok.mp himport
  rw [hdecode] at hpayload
  cases hpayload
  cases himport
  have hsame := fetchStore_same hfetch
  obtain ⟨fallback, hm⟩ := importPayload_messages ci (exportPayload now fetched).truncated (Store.empty E)
  refine ⟨fun m => importMessage (indexed ChatSession.id (((fetched.sessions.map exportSession).map
    ExportChatSessionV1.truncated).map importSession)) fallback (exportMessage m).truncated,
    ?_, fun m => rfl, fun m => rfl, fun x hx m hm => ?_⟩
  · rw [hm]
    show (((fetched.messages.map exportMessage).map ExportChatMessageV1.truncated).map _).Perm _
    rw [List.map_map, List.map_map]
    exact hsame.messages.map _
  · obtain ⟨y, hy, hid⟩ := lookup_sessionsById (hsame.sessions.mem_iff.mpr hx)
    exact (congrArg ChatMessage.session (importMessage_exportMessage hm hy hid)).trans hm

/-- What `t` shows of the messages that a session shows on `s`: these
messages, as they were carried over. -/
theorem Carried.shown {g : ChatMessage → ChatMessage} {s t : Store E} (hg : Carried g s t)
    (hid : (s.messages.map ChatMessage.id).Nodup) {x : ChatSession} (hx : x ∈ s.sessions) {l l' : List ChatMessage}
    (hl : l.Perm (s.messages.filter (·.session == some x.id)))
    (hl' : l'.Perm (t.messages.filter (·.session == some x.id))) :
    (l'.filter fun m => m.id ∈ l.map ChatMessage.id).Perm (l.map g) := by
  have hown : ∀ m ∈ s.messages, (m.id ∈ l.map ChatMessage.id ↔ m.session = some x.id) := by
    intro m hm
    constructor
    · intro h
      obtain ⟨m', hm', he⟩ := List.mem_map.mp h
      obtain ⟨hm', hsess⟩ := List.mem_filter.mp (hl.mem_iff.mp hm')
      rw [← List.inj_on_of_nodup_map hid hm' hm he]
      exact eq_of_beq hsess
    · intro h
      exact List.mem_map_of_mem (hl.mem_iff.mpr (List.mem_filter.mpr ⟨hm, beq_iff_eq.mpr h⟩))
  calc l'.filter (fun m => m.id ∈ l.map ChatMessage.id)
    _ |>.Perm ((t.messages.filter (·.session == some x.id)).filter fun m => m.id ∈ l.map ChatMessage.id) :=
        hl'.filter _
    _ |>.Perm (((s.messages.map g).filter (·.session == some x.id)).filter fun m => m.id ∈ l.map ChatMessage.id) :=
        (hg.messages.filter _).filter _
    _ = (s.messages.filter (·.session == some x.id)).map g := by
        rw [List.filter_filter, List.filter_map]
        congr 1
        refine List.filter_congr fun m hm => ?_
        rw [Bool.eq_iff_iff]
        simp only [Function.comp, hg.id, Bool.and_eq_true, decide_eq_true_eq, beq_iff_eq, hown m hm]
        exact ⟨And.left, fun h => ⟨h, hg.session x hx m h⟩⟩
    _ |>.Perm (l.map g) := (hl.map g).symm

/-- Messages a second apart keep their order. -/
theorem Carried.orderKept {g : ChatMessage → ChatMessage} {s t : Store E} (hg : Carried g s t)
    (hid : (s.messages.map ChatMessage.id).Nodup) (hsec : SecondsApart s) : OrderKept s t := by
  rintro x hx c c' v v' rfl rfl ⟨l', hl'⟩
  rw [loadMessages_chatMessages c' hl']
  cases hc : c.fetchMessages v.store.messages (some x.id) with
  | error e =>
    rw [loadMessages, hc]
    simp
  | ok l =>
    rw [loadMessages_chatMessages c hc]
    have hperm := c.fetchMessages_perm hc
    have hafter : SortedOn ChatMessage.createdAt (l'.filter fun m => m.id ∈ l.map ChatMessage.id) :=
      (c'.fetchMessages_sorted hl').sublist List.filter_sublist
    have hbefore : SortedOn ChatMessage.createdAt (l.map g) :=
      (c.fetchMessages_sorted hc).map fun m m' h => by
        rw [hg.createdAt, hg.createdAt]
        exact wholeSeconds_mono h
    have hshown := hg.shown hid hx hperm (c'.fetchMessages_perm hl')
    have hown : ∀ m ∈ l, m ∈ v.store.messages ∧ m.session = some x.id := fun m hm => by
      obtain ⟨hm, hsess⟩ := List.mem_filter.mp (hperm.mem_iff.mp hm)
      exact ⟨hm, eq_of_beq hsess⟩
    have heq : l.map g = l'.filter fun m => m.id ∈ l.map ChatMessage.id := by
      refine hbefore.eq_of_perm hafter hshown.symm fun a ha b hb hk => ?_
      obtain ⟨m, hm, rfl⟩ := List.mem_map.mp ha
      obtain ⟨m', hm', rfl⟩ := List.mem_map.mp hb
      rw [hg.createdAt, hg.createdAt] at hk
      rw [hsec x hx m (hown m hm).1 m' (hown m' hm').1 (hown m hm).2 (hown m' hm').2 hk]
    show (l'.map ChatMessage.id).filter (· ∈ l.map ChatMessage.id) = l.map ChatMessage.id
    rw [List.filter_map, show (l'.filter ((· ∈ l.map ChatMessage.id) ∘ ChatMessage.id)) = l.map g from heq.symm,
      List.map_map]
    exact List.map_congr_left fun m _ => hg.id m

/-- Of two messages within a second of one session, either may come first
after the restore. -/
theorem Carried.secondsApart {g : ChatMessage → ChatMessage} {s t : Store E} (hg : Carried g s t)
    (hid : (s.messages.map ChatMessage.id).Nodup) (hkept : OrderKept s t) : SecondsApart s := by
  intro x hx m hm m' hm' hsess hsess' hsec
  by_contra hne
  have hstable := hkept x hx .stable .stable (.launch s 0) (.launch t 0) rfl rfl ⟨_, rfl⟩
  have hreversed := hkept x hx .stable .reversed (.launch s 0) (.launch t 0) rfl rfl ⟨_, rfl⟩
  simp only [loadMessages_chatMessages ModelContext.stable rfl,
    loadMessages_chatMessages ModelContext.reversed rfl, List.filter_map] at hstable hreversed
  have hids : ((t.messages.filter (·.session == some x.id)).map ChatMessage.id).Nodup := by
    refine (List.filter_sublist.map _).nodup ((hg.messages.map _).nodup_iff.mpr ?_)
    rw [List.map_map, show ChatMessage.id ∘ g = ChatMessage.id from funext hg.id]
    exact hid
  have hcarried : ∀ m ∈ s.messages, m.session = some x.id →
      g m ∈ t.messages.filter (·.session == some x.id) := fun m hm hsess => by
    refine List.mem_filter.mpr ⟨hg.messages.mem_iff.mpr (List.mem_map_of_mem hm), ?_⟩
    exact beq_iff_eq.mpr (hg.session x hx m hsess)
  have hbefore : ∀ m ∈ s.messages, m.session = some x.id → (g m).id ∈
      (sortOn ChatMessage.createdAt (s.messages.filter (·.session == some x.id))).map ChatMessage.id :=
    fun m hm hsess => by
      rw [hg.id]
      exact List.mem_map_of_mem (mem_sortOn.mpr (List.mem_filter.mpr ⟨hm, beq_iff_eq.mpr hsess⟩))
  refine sortOn_reverse_ne hids (hcarried m hm hsess) (hcarried m' hm' hsess')
    (decide_eq_true (hbefore m hm hsess)) (decide_eq_true (hbefore m' hm' hsess')) (fun he => ?_) ?_
    (hstable.trans hreversed.symm)
  · have := congrArg ChatMessage.id he
    rw [hg.id, hg.id] at this
    exact hne (List.inj_on_of_nodup_map hid hm hm' this)
  · rw [hg.createdAt, hg.createdAt, hsec]

/-- A restored backup shows every conversation in its order, whatever order
the stores give to messages of equal dates, if and only if no two messages of
one session were created within one second. -/
theorem orderKept_iff {codec : PayloadCodec E J} {c : BackupContext} {ci : ImportContext} {now : Date}
    {s t : Store E} (hid : (s.messages.map ChatMessage.id).Nodup)
    (hr : Restored codec c ci now s t) : OrderKept s t ↔ SecondsApart s := by
  obtain ⟨g, hg⟩ := hr.carried
  exact ⟨hg.secondsApart hid, hg.orderKept hid⟩

/-- A session with a question and its answer, `gap` seconds later. -/
def questionAnswered (gap : ℚ) : Store Unit :=
  { Store.empty Unit with
    sessions := [⟨0, "Plans", 0, 0⟩]
    messages :=
      [⟨1, "user", "Next steps?", none, [], [], 1 / 5, some 0⟩,
        ⟨2, "assistant", "Rest.", none, [], [], 1 / 5 + gap, some 0⟩] }

/-- A minute lies between the two. -/
theorem orderKept_questionAnswered :
    ∃ t, Restored (PayloadCodec.plain Unit) .plain (.plain 5 20) 100 (questionAnswered 60) t ∧
      OrderKept (questionAnswered 60) t := by
  have hr : Restored (PayloadCodec.plain Unit) .plain (.plain 5 20) 100 (questionAnswered 60) _ :=
    ⟨_, rfl, rfl⟩
  exact ⟨_, hr, (orderKept_iff (by decide) hr).mpr (by decide +kernel)⟩

/-- Half a second lies between the two, and both dates come back as one. -/
theorem not_orderKept_questionAnswered :
    ((questionAnswered (1 / 2)).messages.map ChatMessage.createdAt).Nodup ∧
      ∃ t, Restored (PayloadCodec.plain Unit) .plain (.plain 5 20) 100 (questionAnswered (1 / 2)) t ∧
        ¬ OrderKept (questionAnswered (1 / 2)) t := by
  refine ⟨by decide +kernel, _, ⟨_, rfl, rfl⟩, fun h => ?_⟩
  have := h ⟨0, "Plans", 0, 0⟩ (by decide +kernel) .stable .reversed (.launch _ 0) (.launch _ 0) rfl rfl ⟨_, rfl⟩
  revert this
  decide +kernel

end SynapsNotes.Backup
