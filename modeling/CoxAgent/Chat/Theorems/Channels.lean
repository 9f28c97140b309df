import CoxAgent.Chat.Channels

-- Who gets into a channel, and what holds of the channels after any calls.

section Routes

-- The ways into the channel with the id, where some people may invite.
def Admits (mayInvite : Channel → String → Prop) (cs : List Channel) (id user : String) : ChannelCall → Prop
  | .create _ name owner                  => slugify name = id ∧ user = owner
  | .createWithKind _ name owner _        => slugify name = id ∧ user = owner
  | .createSub _ parentId name owner _    => slugify name = id ∧
      ∃ p ∈ cs, p.id = parentId ∧ p.canView owner ∧ (user = owner ∨ user ∈ p.members)
  | .settings _ _ _ _                     => False
  | .remove _ _                           => False
  | .invite channelId actor invitee       => channelId = id ∧ user = Text.trim invitee ∧
      ∃ c ∈ cs, c.id = id ∧ mayInvite c actor
  | .delegate channelId actor grantee     => channelId = id ∧ user = Text.trim grantee ∧
      ∃ c ∈ cs, c.id = id ∧ c.owner = actor

def OwnerOrInviter (c : Channel) (user : String) : Prop :=
  user = c.owner ∨ user ∈ c.inviters

-- In a channel that is open for invitations any member may invite.
def OwnerInviterOrOpen (c : Channel) (user : String) : Prop :=
  OwnerOrInviter c user ∨ c.openInvite ∧ user ∈ c.members

end Routes

-- The owner and the inviters are members, and each member is listed once.
structure Channel.Consistent (c : Channel) : Prop where
  owner    : c.owner ∈ c.members
  inviters : ∀ m ∈ c.inviters, m ∈ c.members
  nodup    : c.members.Nodup

-- What holds of the stored channels.
structure ChannelsOk (cs : List Channel) : Prop where
  ids        : (cs.map (·.id)).Nodup
  noGeneral  : ∀ c ∈ cs, c.id ≠ generalChannel
  consistent : ∀ c ∈ cs, c.Consistent

section PushMissing

variable {l ms : List String} {m u : String}

theorem mem_pushMissing : u ∈ pushMissing l m ↔ u ∈ l ∨ u = m := by
  unfold pushMissing
  split
  case isTrue h  => grind
  case isFalse h => simp

theorem nodup_pushMissing (h : l.Nodup) : (pushMissing l m).Nodup := by
  unfold pushMissing
  split
  case isTrue  => exact h
  case isFalse hm => exact List.nodup_append_comm.mp (List.nodup_cons.mpr ⟨hm, h⟩)

theorem mem_foldl_pushMissing : u ∈ ms.foldl pushMissing l ↔ u ∈ l ∨ u ∈ ms := by
  induction ms generalizing l
  case nil          => simp
  case cons m ms hi => rw [List.foldl_cons, hi, mem_pushMissing, List.mem_cons, or_assoc]

theorem nodup_foldl_pushMissing (h : l.Nodup) : (ms.foldl pushMissing l).Nodup := by
  induction ms generalizing l
  case nil          => exact h
  case cons m ms hi => exact hi (nodup_pushMissing h)

end PushMissing

section Change

variable {missing id : String} {f : Channel → Except String Channel} {cs cs' : List Channel} {ch ch' c : Channel}
  {r : Except String Channel}

-- A change of one channel is refused and does nothing, or replaces the first channel with the id.
theorem channelMut_cases (h : Channels.channelMut missing id f cs = (cs', r)) :
    (cs' = cs ∧ ∃ e, r = .error e) ∨ ∃ l₁ c l₂ c', cs = l₁ ++ c :: l₂ ∧ cs' = l₁ ++ c' :: l₂ ∧ c.id = id ∧
      f c = .ok c' ∧ r = .ok c' := by
  induction cs generalizing cs'
  case nil =>
    obtain ⟨rfl, rfl⟩ := Prod.mk.inj h
    exact .inl ⟨rfl, _, rfl⟩
  case cons c cs hi =>
    rw [Channels.channelMut] at h
    by_cases hid : c.id = id
    case pos =>
      rw [if_pos hid] at h
      cases hf : f c
      case error e =>
        rw [hf] at h
        obtain ⟨rfl, rfl⟩ := Prod.mk.inj h
        exact .inl ⟨rfl, e, rfl⟩
      case ok c' =>
        rw [hf] at h
        obtain ⟨rfl, rfl⟩ := Prod.mk.inj h
        exact .inr ⟨[], c, cs, c', rfl, rfl, hid, hf, rfl⟩
    case neg =>
      rw [if_neg hid] at h
      obtain ⟨rfl, rfl⟩ := Prod.mk.inj h
      cases hi rfl
      case inl h => exact .inl ⟨by rw [h.1], h.2⟩
      case inr h =>
        have ⟨l₁, d, l₂, d', he, he', hd, hf, hr⟩ := h
        exact .inr ⟨c :: l₁, d, l₂, d', by rw [he, List.cons_append], by rw [he', List.cons_append], hd, hf, hr⟩

-- The channel that has just been added is the first with its id.
theorem channelMut_append_singleton {g : Channel → Channel} (hcs : ∀ c ∈ cs, c.id ≠ ch.id) :
    Channels.channelMut missing ch.id (fun c => .ok (g c)) (cs ++ [ch]) = (cs ++ [g ch], .ok (g ch)) := by
  induction cs
  case nil          => rw [List.nil_append, Channels.channelMut, if_pos rfl, List.nil_append]
  case cons c cs hi =>
    rw [List.forall_mem_cons] at hcs
    rw [List.cons_append, Channels.channelMut, if_neg hcs.1, hi hcs.2, List.cons_append]

theorem createChannelWithKind_cases {now name owner kind : String}
    (h : Channels.createChannelWithKind now name owner kind cs = (cs', r)) :
    (cs' = cs ∧ ∃ e, r = .error e) ∨ ∃ ch, cs' = cs ++ [ch] ∧ r = .ok ch ∧ ch.id = slugify name ∧
      ch.id ≠ generalChannel ∧ (∀ c ∈ cs, c.id ≠ ch.id) ∧ ch.owner = owner ∧ ch.members = [owner] ∧
      ch.inviters = [] := by
  have refused {e : String} (h : (cs, Except.error e) = (cs', r)) : cs' = cs ∧ ∃ e, r = .error e := by
    obtain ⟨rfl, rfl⟩ := Prod.mk.inj h
    exact ⟨rfl, e, rfl⟩
  unfold Channels.createChannelWithKind at h
  dsimp only at h
  split at h
  case isTrue => exact .inl (refused h)
  case isFalse =>
    split at h
    case isTrue => exact .inl (refused h)
    case isFalse hid =>
      split at h
      case isTrue => exact .inl (refused h)
      case isFalse =>
        obtain ⟨rfl, rfl⟩ := Prod.mk.inj h
        simp only [Bool.or_eq_true, decide_eq_true_eq, List.any_eq_true, not_or, not_exists, not_and] at hid
        exact .inr ⟨_, rfl, rfl, rfl, hid.1, hid.2, rfl, rfl, rfl⟩

end Change

section Effect

variable {missing id u : String} {f : Channel → Except String Channel} {cs cs' : List Channel} {c c' : Channel}
  {call : ChannelCall} {r : Except String Unit}

-- A call may change a channel in this way.
structure Changes (call : ChannelCall) (cs : List Channel) (c c' : Channel) : Prop where
  id         : c'.id = c.id
  consistent : c.Consistent → c'.Consistent
  members    : ¬c.isOpen → ∀ u ∈ c'.members, u ∈ c.members ∨ Admits OwnerInviterOrOpen cs c.id u call

-- What a call does to the channels.
inductive ChannelEffect (call : ChannelCall) (cs cs' : List Channel) : Except String Unit → Prop
  | refused (e : String) (he : cs' = cs) : ChannelEffect call cs cs' (.error e)
  | added (ch : Channel) (he : cs' = cs ++ [ch]) (general : ch.id ≠ generalChannel) (fresh : ∀ c ∈ cs, c.id ≠ ch.id)
      (consistent : ch.Consistent) (members : ∀ u ∈ ch.members, Admits OwnerInviterOrOpen cs ch.id u call) :
      ChannelEffect call cs cs' (.ok ())
  | changed (l₁ : List Channel) (c : Channel) (l₂ : List Channel) (c' : Channel) (he : cs = l₁ ++ c :: l₂)
      (he' : cs' = l₁ ++ c' :: l₂) (changes : Changes call cs c c') : ChannelEffect call cs cs' (.ok ())

theorem effect_channelMut (hf : ∀ c c', c ∈ cs → c.id = id → f c = .ok c' → Changes call cs c c') :
    ChannelEffect call cs (Channels.withoutChannel (Channels.channelMut missing id f cs)).1
      (Channels.withoutChannel (Channels.channelMut missing id f cs)).2 := by
  cases channelMut_cases (Prod.eta (Channels.channelMut missing id f cs)).symm
  case inl h =>
    have ⟨he, e, hr⟩ := h
    rw [Channels.withoutChannel, hr]
    exact .refused e he
  case inr h =>
    have ⟨l₁, c, l₂, c', he, he', hid, hok, hr⟩ := h
    rw [Channels.withoutChannel, hr]
    exact .changed l₁ c l₂ c' he he' (hf c c' (by simp [he]) hid hok)

theorem effect_settings {kind : Option String} {openInvite : Option Bool} {topic : Option String} :
    ChannelEffect (.settings id kind openInvite topic) cs (ChannelCall.run cs (.settings id kind openInvite topic)).1
      (ChannelCall.run cs (.settings id kind openInvite topic)).2 := by
  refine effect_channelMut fun c c' _ _ h => ?_
  split at h
  case isTrue => contradiction
  case isFalse =>
    split at h
    case isTrue => contradiction
    case isFalse =>
      obtain rfl := Except.ok.inj h
      exact ⟨rfl, fun h => ⟨h.owner, h.inviters, h.nodup⟩, fun _ u hu => .inl hu⟩

theorem effect_remove {user : String} : ChannelEffect (.remove id user) cs (ChannelCall.run cs (.remove id user)).1
    (ChannelCall.run cs (.remove id user)).2 := by
  refine effect_channelMut fun c c' _ _ h => ?_
  split at h
  case isTrue => contradiction
  case isFalse ho =>
    obtain rfl := Except.ok.inj h
    refine ⟨rfl, fun h => ⟨?_, ?_, h.nodup.filter _⟩, fun _ u hu => .inl (List.mem_filter.mp hu).1⟩
    case refine_1 => exact List.mem_filter.mpr ⟨h.owner, by simpa using ho⟩
    case refine_2 =>
      intro m hm
      have ⟨hi, hne⟩ := List.mem_filter.mp hm
      exact List.mem_filter.mpr ⟨h.inviters m hi, hne⟩

theorem effect_invite {actor invitee : String} :
    ChannelEffect (.invite id actor invitee) cs (ChannelCall.run cs (.invite id actor invitee)).1
      (ChannelCall.run cs (.invite id actor invitee)).2 := by
  refine effect_channelMut fun c c' hc hid h => ?_
  dsimp only at h
  split at h
  case isTrue => contradiction
  case isFalse hinvite =>
    split at h
    case isTrue => contradiction
    case isFalse =>
      have hadmits (hopen : ¬c.isOpen) : OwnerInviterOrOpen c actor := by
        unfold OwnerInviterOrOpen OwnerOrInviter
        simp only [Channel.canInvite] at hinvite
        grind
      split at h
      case isTrue =>
        obtain rfl := Except.ok.inj h
        refine ⟨rfl, fun h => ⟨?_, ?_, nodup_pushMissing h.nodup⟩, fun hopen u hu => ?_⟩
        case refine_1 => exact mem_pushMissing.mpr (.inl h.owner)
        case refine_2 => exact fun m hm => mem_pushMissing.mpr (.inl (h.inviters m hm))
        case refine_3 =>
          exact (mem_pushMissing.mp hu).imp_right fun hu => ⟨hid.symm, hu, c, hc, rfl, hadmits hopen⟩
      case isFalse =>
        obtain rfl := Except.ok.inj h
        exact ⟨rfl, fun h => h, fun _ u hu => .inl hu⟩

theorem effect_delegate {actor grantee : String} :
    ChannelEffect (.delegate id actor grantee) cs (ChannelCall.run cs (.delegate id actor grantee)).1
      (ChannelCall.run cs (.delegate id actor grantee)).2 := by
  refine effect_channelMut fun c c' hc hid h => ?_
  dsimp only at h
  split at h
  case isTrue => contradiction
  case isFalse howner =>
    split at h
    case isTrue => contradiction
    case isFalse =>
      obtain rfl := Except.ok.inj h
      refine ⟨rfl, fun h => ⟨?_, ?_, nodup_pushMissing h.nodup⟩, fun _ u hu => ?_⟩
      case refine_1 => exact mem_pushMissing.mpr (.inl h.owner)
      case refine_2 =>
        exact fun m hm => mem_pushMissing.mpr ((mem_pushMissing.mp hm).imp_left (h.inviters m))
      case refine_3 =>
        exact (mem_pushMissing.mp hu).imp_right fun hu => ⟨hid.symm, hu, c, hc, rfl, not_not.mp howner⟩

theorem effect_createWithKind {now name owner kind : String}
    (hcall : ∀ u, u = owner → Admits OwnerInviterOrOpen cs (slugify name) u call) :
    ChannelEffect call cs (Channels.withoutChannel (Channels.createChannelWithKind now name owner kind cs)).1
      (Channels.withoutChannel (Channels.createChannelWithKind now name owner kind cs)).2 := by
  generalize hc : Channels.createChannelWithKind now name owner kind cs = created
  obtain ⟨cs', r⟩ := created
  cases createChannelWithKind_cases hc
  case inl h =>
    obtain ⟨rfl, e, rfl⟩ := h
    exact .refused e rfl
  case inr h =>
    obtain ⟨ch, he, rfl, hid, hgeneral, hfresh, howner, hmembers, hinviters⟩ := h
    refine .added ch he hgeneral hfresh ⟨?_, ?_, ?_⟩ fun u hu => ?_
    case refine_1 => simp [howner, hmembers]
    case refine_2 => simp [hinviters]
    case refine_3 => simp [hmembers]
    case refine_4 =>
      rw [hmembers, List.mem_singleton] at hu
      exact hid ▸ hcall u hu

theorem effect_createSub {now parentId name owner kind : String} :
    ChannelEffect (.createSub now parentId name owner kind) cs
      (ChannelCall.run cs (.createSub now parentId name owner kind)).1
      (ChannelCall.run cs (.createSub now parentId name owner kind)).2 := by
  rw [ChannelCall.run, Channels.createSubChannel]
  cases hp : cs.find? (·.id = parentId)
  case none        => exact .refused _ rfl
  case some parent =>
    have hparent : parent ∈ cs ∧ parent.id = parentId :=
      ⟨List.mem_of_find?_eq_some hp, by simpa using List.find?_some hp⟩
    dsimp only
    split
    case isTrue        => exact .refused _ rfl
    case isFalse hview =>
      generalize hc : Channels.createChannelWithKind now name owner kind cs = created
      obtain ⟨cs', r⟩ := created
      cases createChannelWithKind_cases hc
      case inl h =>
        obtain ⟨rfl, e, rfl⟩ := h
        exact .refused e rfl
      case inr h =>
        obtain ⟨ch, rfl, rfl, hid, hgeneral, hfresh, howner, hmembers, hinviters⟩ := h
        dsimp only
        rw [channelMut_append_singleton hfresh]
        refine .added _ rfl hgeneral hfresh ⟨?_, ?_, ?_⟩ fun u hu => ?_
        case refine_1 => exact mem_foldl_pushMissing.mpr (.inl (by simp [howner, hmembers]))
        case refine_2 => simp [hinviters]
        case refine_3 => exact nodup_foldl_pushMissing (by simp [hmembers])
        case refine_4 =>
          have hu := mem_foldl_pushMissing.mp hu
          rw [hmembers, List.mem_singleton] at hu
          exact ⟨hid.symm, parent, hparent.1, hparent.2, by simpa using hview, hu⟩

-- Every call is refused, adds a channel or changes one.
theorem effect_run : ChannelEffect call cs (call.run cs).1 (call.run cs).2 := by
  cases call
  case create now name owner              => exact effect_createWithKind fun _ hu => ⟨rfl, hu⟩
  case createWithKind now name owner kind => exact effect_createWithKind fun _ hu => ⟨rfl, hu⟩
  case createSub                          => exact effect_createSub
  case settings                           => exact effect_settings
  case remove                             => exact effect_remove
  case invite                             => exact effect_invite
  case delegate                           => exact effect_delegate

theorem ChannelEffect.channelsOk (he : ChannelEffect call cs cs' r) (h : ChannelsOk cs) : ChannelsOk cs' := by
  cases he
  case refused e he                                      => exact he ▸ h
  case added ch he general fresh consistent members      =>
    subst he
    constructor
    case ids =>
      have hn : ch.id ∉ cs.map (·.id) := by
        rw [List.mem_map]
        exact fun ⟨c, hc, hid⟩ => fresh c hc hid
      rw [List.map_append, List.map_singleton]
      exact List.nodup_append_comm.mp (List.nodup_cons.mpr ⟨hn, h.ids⟩)
    case noGeneral  => exact List.forall_mem_append.mpr ⟨h.noGeneral, by simpa using general⟩
    case consistent => exact List.forall_mem_append.mpr ⟨h.consistent, by simpa using consistent⟩
  case changed l₁ c l₂ c' he he' changes =>
    subst he he'
    have hids : (l₁ ++ c' :: l₂).map (·.id) = (l₁ ++ c :: l₂).map (·.id) := by
      rw [List.map_append, List.map_append, List.map_cons, List.map_cons, changes.id]
    have hg := h.noGeneral
    have hc := h.consistent
    rw [List.forall_mem_append, List.forall_mem_cons] at hg hc
    constructor
    case ids        => exact hids ▸ h.ids
    case noGeneral  => exact List.forall_mem_append.mpr ⟨hg.1, List.forall_mem_cons.mpr ⟨changes.id ▸ hg.2.1, hg.2.2⟩⟩
    case consistent =>
      exact List.forall_mem_append.mpr ⟨hc.1, List.forall_mem_cons.mpr ⟨changes.consistent hc.2.1, hc.2.2⟩⟩

-- Who is a member afterwards was one before, or is let in by the call.
theorem ChannelEffect.admits {d : Channel} (he : ChannelEffect call cs cs' r) (h : ChannelsOk cs) (hd : d ∈ cs')
    (hid : d.id ≠ agentsChannel) (hu : u ∈ d.members) :
    (∃ c ∈ cs, c.id = d.id ∧ u ∈ c.members) ∨ Admits OwnerInviterOrOpen cs d.id u call := by
  cases he
  case refused e he                                 => exact .inl ⟨d, he ▸ hd, rfl, hu⟩
  case added ch he general fresh consistent members =>
    rw [he, List.mem_append, List.mem_singleton] at hd
    cases hd
    case inl hd => exact .inl ⟨d, hd, rfl, hu⟩
    case inr hd => exact .inr (hd ▸ members u (hd ▸ hu))
  case changed l₁ c l₂ c' he he' changes =>
    rw [he', List.mem_append, List.mem_cons] at hd
    by_cases hc : d = c'
    case neg => exact .inl ⟨d, by rw [he, List.mem_append, List.mem_cons]; grind, rfl, hu⟩
    case pos =>
      subst hc
      have hcs : c ∈ cs := by simp [he]
      have hopen : ¬c.isOpen := by
        have hg := h.noGeneral c hcs
        simp only [Channel.isOpen]
        grind [changes.id]
      rw [changes.id]
      exact (changes.members hopen u hu).imp_left fun hm => ⟨c, hcs, rfl, hm⟩

theorem ChannelEffect.eq_of_error {e : String} (he : ChannelEffect call cs cs' (.error e)) : cs' = cs := by
  cases he
  case refused he => exact he

end Effect

namespace ProjectState

variable {s s₀ : ProjectState} {calls : List ChannelCall} {call : ChannelCall}

theorem channels_channelCall : (s.channelCall call).1.channels = (call.run s.channels).1 := by
  rw [channelCall, withChannels]

theorem channelsOk_channelCalls (calls : List ChannelCall) (h : ChannelsOk s₀.channels) :
    ChannelsOk (s₀.channelCalls calls).channels := by
  induction calls generalizing s₀
  case nil                => exact h
  case cons call calls hi => exact hi (channels_channelCall ▸ effect_run.channelsOk h)

-- A stored channel is found by its id, unless its name is that of a built-in room.
theorem channel_of_mem {c : Channel} (h : ChannelsOk s.channels) (hc : c ∈ s.channels) (hid : c.id ≠ agentsChannel) :
    s.channel c.id = some c := by
  rw [channel, Channels.channel, if_neg (h.noGeneral c hc), if_neg hid]
  cases hf : s.channels.find? (·.id = c.id)
  case none   => exact absurd (List.find?_eq_none.mp hf c hc) (by simp)
  case some d =>
    have he : d.id = c.id := by simpa using List.find?_some hf
    rw [List.inj_on_of_nodup_map h.ids (List.mem_of_find?_eq_some hf) hc he]

theorem channelCall_of_error {e : String} (h : (s.channelCall call).2 = .error e) : (s.channelCall call).1 = s := by
  have he : ChannelEffect call s.channels (call.run s.channels).1 (.error e) := h ▸ effect_run
  have hc := he.eq_of_error
  rw [channelCall, hc, withChannels]

-- What holds after any calls and of the next one.
theorem channels_guarded (h : ChannelsOk s₀.channels) (calls : List ChannelCall) (call : ChannelCall) :
    let s := s₀.channelCalls calls
    ChannelsOk s.channels ∧
      (∀ c ∈ s.channels, c.id ≠ agentsChannel → s.channel c.id = some c) ∧
      (∀ c ∈ (s.channelCall call).1.channels, c.id ≠ agentsChannel → ∀ user ∈ c.members,
        (∃ c₀ ∈ s.channels, c₀.id = c.id ∧ user ∈ c₀.members) ∨
          Admits OwnerInviterOrOpen s.channels c.id user call) ∧
      ∀ e, (s.channelCall call).2 = .error e → (s.channelCall call).1 = s := by
  have hok := channelsOk_channelCalls calls h
  refine ⟨hok, fun c hc hid => channel_of_mem hok hc hid, fun c hc hid user hu => ?_, fun e => channelCall_of_error⟩
  rw [channels_channelCall] at hc
  exact effect_run.admits hok hc hid hu

-- A room in which the owner lets every member invite.
def openRoom : List ChannelCall :=
  [.create "2026-03-01T09:00:00Z" "Secret" "alice", .invite "secret" "alice" "bob",
    .settings "secret" none (some true) none]

def secretRoom (members : List String) : Channel :=
  { id := "secret", name := "Secret", owner := "alice", members, createdAt := "2026-03-01T09:00:00Z",
    openInvite := true }

theorem channelsOk_fresh : ChannelsOk ({} : ProjectState).channels :=
  ⟨List.nodup_nil, fun _ h => absurd h List.not_mem_nil, fun _ h => absurd h List.not_mem_nil⟩

theorem channels_guarded_openRoom : ChannelsOk (({} : ProjectState).channelCalls openRoom).channels :=
  (channels_guarded channelsOk_fresh openRoom (.invite "secret" "bob" "carol")).1

-- There a member without a delegation lets another user in.
theorem not_channels_guarded :
    ¬∀ (s₀ : ProjectState) (calls : List ChannelCall) (call : ChannelCall), ChannelsOk s₀.channels →
      let s := s₀.channelCalls calls
      ∀ c ∈ (s.channelCall call).1.channels, c.kind = "private" → ∀ user ∈ c.members,
        (∃ c₀ ∈ s.channels, c₀.id = c.id ∧ user ∈ c₀.members) ∨
          Admits OwnerOrInviter s.channels c.id user call := by
  intro h
  have hbefore : (({} : ProjectState).channelCalls openRoom).channels = [secretRoom ["alice", "bob"]] := by
    decide +kernel
  have hafter : ((({} : ProjectState).channelCalls openRoom).channelCall (.invite "secret" "bob" "carol")).1.channels =
      [secretRoom ["alice", "bob", "carol"]] := by
    decide +kernel
  have hcarol := h {} openRoom (.invite "secret" "bob" "carol") channelsOk_fresh
    (secretRoom ["alice", "bob", "carol"]) (by simp [hafter]) rfl "carol" (by decide)
  rw [hbefore] at hcarol
  simp [Admits, OwnerOrInviter, secretRoom] at hcarol

end ProjectState
