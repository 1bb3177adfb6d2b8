/-
Whether interned Tarpan attributes are shared by value, over runs of the store (bgp_tarpan.c) in which messages are
interned, changed in place by the handler of the active protocol (`packet_received_handler`, after `tarpan_intern` in
bgp_attr.c) and dropped. Key and comparison are taken from the address of a message, so the calls go by value exactly
where the addresses tell the contents apart, and an UPDATE that comes again is found to be a duplicate (`attrhash_cmp`,
`bgp_update_main`) only where the stored message still says what was received.
-/
import Tarpan.Bgpd.Attr.Intern
import Tarpan.Bgpd.Tarpan.Handler

namespace Tarpan.Bgpd

open TarpanStore Option

/-! ## Calls -/

/-- The store, and for each live attribute the messages that were received and interned as it. -/
structure SharedStore where
  store : TarpanStore
  received : TarpanAttr → List TarpanMsg

inductive TarpanCall where
  | intern (tarp : TarpanAttr) (msg : TarpanMsg)
  -- the handler writes `msg` over the message of an interned attribute
  | write (tarp : TarpanAttr) (msg : TarpanMsg)
  | unintern (tarp : TarpanAttr)

/-- What the callers see to: memory is newly allocated, and what is changed or dropped is held. -/
def TarpanCall.Allowed (s : TarpanStore) : TarpanCall → Prop
  | .intern t _ => s.Fresh t
  | .write x _ => s.Live x
  | .unintern x => s.Live x

def SharedStore.log (s : SharedStore) (find : TarpanAttr) (msg : TarpanMsg) : TarpanAttr → List TarpanMsg :=
  Function.update s.received find (msg :: if 0 < s.store.table.refcnt find then s.received find else [])

def TarpanCall.exec (s : SharedStore) : TarpanCall → Option SharedStore
  | .intern t msg => (tarpanIntern (s.store.place t msg) t).map fun (find, store) => ⟨store, s.log find msg⟩
  | .write x msg => some { s with store := s.store.place x msg }
  | .unintern x => (tarpanUnintern s.store x).map fun store => { s with store }

/-- The test before the duplicate branch of `bgp_update_main`. -/
def sameAttributeComesIn (removed : Bool) (stored attrNew : AttrRecord) : Bool := !removed && stored.attrhashCmp attrNew

/-- A message that is received is interned, and then the handler writes to what it was interned as. -/
theorem tarpanReceived_calls {σ : Type} {handler : Option (TarpanProtocolHandler σ)} {peerAs : UInt32}
    {sp sp' : Speaker σ} {msg : TarpanMsg} {t tarpan : TarpanAttr} (received : TarpanAttr → List TarpanMsg)
    (h : tarpanReceived handler peerAs sp msg t = some (tarpan, sp')) :
    ∃ s, TarpanCall.exec ⟨sp.store, received⟩ (.intern t msg) = some s ∧
      (sp'.store = s.store ∨ ∃ m, TarpanCall.exec s (.write tarpan m) = some { s with store := sp'.store }) := by
  simp only [tarpanReceived, bind_eq_bind, bind_eq_some_iff] at h
  obtain ⟨⟨find, store⟩, hint, sp1, hcall, hpure⟩ := h
  cases hpure
  refine ⟨_, by rw [TarpanCall.exec, hint]; rfl, ?_⟩
  unfold callHandler at hcall
  cases handler with
  | none =>
    cases hcall
    exact .inl rfl
  | some h =>
    obtain ⟨m, -, rfl⟩ := map_eq_some_iff.1 hcall
    exact .inr ⟨_, rfl⟩

/-! ## Sharing by value -/

/-- Live attributes whose messages say the same are one. -/
def TarpanStore.ByValue (s : TarpanStore) : Prop := ∀ x y, s.Live x → s.Live y → s.content x = s.content y → x = y

namespace TarpanCall

/-- An attribute with the message `msg` was interned as `find`, by value: `find` says the same, no two live attributes
say the same afterwards, and where the same message had been received and stored before, the new attributes are found
to be a duplicate of the stored ones. -/
structure InternsByValue (s : SharedStore) (msg : TarpanMsg) (find : TarpanAttr) (store : TarpanStore) : Prop where
  content : store.content find = some msg
  byValue : store.ByValue
  duplicate : ∀ (stored : AttrRecord) (x : TarpanAttr), s.store.Live x → msg ∈ s.received x → stored.tarpan = some x →
    sameAttributeComesIn false stored { stored with tarpan := some find } = true

/-- The call goes by value. -/
def GoesByValue (s : SharedStore) : TarpanCall → Prop
  | .intern t msg => ∃ find store, tarpanIntern (s.store.place t msg) t = some (find, store) ∧
      InternsByValue s msg find store
  | .write x msg => (s.store.place x msg).ByValue
  | .unintern _ => True

/-- Exactly the live attributes that say `msg` agree with the new address in the low 32 bits, and those that `msg` was
received as still say so; nothing is written that another live attribute says. -/
def AddressesTell (s : SharedStore) : TarpanCall → Prop
  | .intern t msg => ∀ x, s.store.Live x → (tarpanHashMake x = tarpanHashMake t ↔ s.store.content x = some msg) ∧
      (msg ∈ s.received x → s.store.content x = some msg)
  | .write x msg => ∀ y, s.store.Live y → s.store.content y = some msg → y = x
  | .unintern _ => True

variable {s : SharedStore} {t x y : TarpanAttr} {msg : TarpanMsg}

theorem sameAttributeComesIn_iff {stored : AttrRecord} (h : stored.tarpan = some x) :
    sameAttributeComesIn false stored { stored with tarpan := some y } = true ↔ x = y := by
  rw [sameAttributeComesIn, Bool.not_false, Bool.true_and, AttrRecord.attrhashCmp_iff]
  constructor
  · intro heq
    have := congrArg AttrRecord.tarpan heq
    rw [h] at this
    exact some.inj this
  · rintro rfl
    rw [← h]

/-- From a store that shares by value, a call goes by value exactly where the addresses tell. -/
theorem intern_goesByValue_iff (hs : s.store.Ok) (hval : s.store.ByValue) (hfr : s.store.Fresh t) :
    GoesByValue s (.intern t msg) ↔ AddressesTell s (.intern t msg) := by
  obtain ⟨find, s', hint, -, hlive, hkeep, hkey, hfind, huniq⟩ := tarpanIntern_spec msg hs hfr
  constructor
  · rintro ⟨find', s'', hint', hgoes⟩ x hx
    rw [hint] at hint'
    cases hint'
    refine ⟨⟨fun hxt => ?_, fun hcont => ?_⟩, fun hmsg => ?_⟩
    · obtain rfl := huniq x hx hxt
      rw [← hkeep x hx]
      exact hgoes.content
    · have hxlive : s'.Live x := (hlive x).2 (.inl hx)
      have hsame : s'.content x = s'.content find := by rw [hkeep x hx, hcont, hgoes.content]
      rw [hgoes.byValue x find hxlive ((hlive find).2 (.inr rfl)) hsame]
      exact hkey
    · let stored : AttrRecord := ⟨none, none, some x, none, 0, 0, 0, 0, 0⟩
      obtain rfl := (sameAttributeComesIn_iff rfl).1 (hgoes.duplicate stored x hx hmsg rfl)
      rw [← hkeep x hx]
      exact hgoes.content
  · intro htell
    have hcontent : s'.content find = some msg := by
      rcases hfind with ⟨rfl, hmsg⟩ | hfind
      · exact hmsg
      · rw [hkeep find hfind]
        exact (htell find hfind).1.1 hkey
    -- whoever was live and says the same as the attribute returned is that attribute
    have hfound : ∀ x, s.store.Live x → s.store.content x = some msg → x = find := fun x hx hcont =>
      huniq x hx ((htell x hx).1.2 hcont)
    refine ⟨find, s', hint, hcontent, fun x y hx hy hxy => ?_, fun stored x hx hmsg hstored => ?_⟩
    · rcases (hlive x).1 hx with hx | rfl <;> rcases (hlive y).1 hy with hy | rfl
      · rw [hkeep x hx, hkeep y hy] at hxy
        exact hval x y hx hy hxy
      · exact hfound x hx (by rw [← hkeep x hx, hxy, hcontent])
      · exact (hfound y hy (by rw [← hkeep y hy, ← hxy, hcontent])).symm
      · rfl
    · exact (sameAttributeComesIn_iff hstored).2 (hfound x hx ((htell x hx).2 hmsg))

theorem place_live (s : TarpanStore) : (s.place x msg).Live y ↔ s.Live y := by
  rw [Live, place_table, Live]

theorem write_goesByValue_iff (hs : s.store.Ok) (hval : s.store.ByValue) (hx : s.store.Live x) :
    GoesByValue s (.write x msg) ↔ AddressesTell s (.write x msg) := by
  have hself : (s.store.place x msg).content x = some msg := by
    refine place_content_self ?_
    obtain ⟨m, hm, -⟩ := bind_eq_some_iff.1 (some_get (hs.allocated x hx)).symm
    rw [hm]
    rfl
  -- attributes with one message have one key, and the table holds one attribute for it
  have hother : ∀ y, s.store.Live y → y ≠ x → (s.store.place x msg).content y = s.store.content y := by
    intro y hy hne
    refine place_content_of_ne fun hmsg => hne (hs.table.unique tarpanCmp_equivalence hy hx (sameEntry_iff.2 ?_))
    rw [tarpanHashMake, hmsg, tarpanHashMake]
  constructor
  · intro hgoes y hy hcont
    by_contra hne
    refine hne (hgoes y x ((place_live _).2 hy) ((place_live _).2 hx) ?_)
    rw [hother y hy hne, hcont, hself]
  · intro htell y z hy hz hyz
    rw [place_live] at hy hz
    by_cases hyx : y = x <;> by_cases hzx : z = x
    · rw [hyx, hzx]
    · rw [hyx, hself, hother z hz hzx] at hyz
      exact hyx.trans (htell z hz hyz.symm).symm
    · rw [hzx, hself, hother y hy hyx] at hyz
      exact (htell y hy hyz).trans hzx.symm
    · rw [hother y hy hyx, hother z hz hzx] at hyz
      exact hval y z hy hz hyz

theorem goesByValue_iff {c : TarpanCall} (hs : s.store.Ok) (hval : s.store.ByValue) (hc : c.Allowed s.store) :
    GoesByValue s c ↔ AddressesTell s c := by
  cases c with
  | intern t msg => exact intern_goesByValue_iff hs hval hc
  | write x msg => exact write_goesByValue_iff hs hval hc
  | unintern x => exact Iff.rfl

theorem exec_ok {c : TarpanCall} {s' : SharedStore} (hs : s.store.Ok) (hc : c.Allowed s.store)
    (h : c.exec s = some s') :
    s'.store.Ok := by
  cases c with
  | intern t msg =>
    obtain ⟨_, _, hint, hok, -⟩ := tarpanIntern_spec msg hs hc
    rw [exec, hint] at h
    cases h
    exact hok
  | write x msg =>
    cases h
    exact place_ok hs
  | unintern x =>
    obtain ⟨_, hunintern, hok, -⟩ := tarpanUnintern_spec hs hc
    rw [exec, hunintern] at h
    cases h
    exact hok

theorem exec_byValue {c : TarpanCall} {s' : SharedStore} (hs : s.store.Ok) (hval : s.store.ByValue)
    (hc : c.Allowed s.store) (hgoes : GoesByValue s c) (h : c.exec s = some s') : s'.store.ByValue := by
  cases c with
  | intern t msg =>
    obtain ⟨_, _, hint, hgoes⟩ := hgoes
    rw [exec, hint] at h
    cases h
    exact hgoes.byValue
  | write x msg =>
    cases h
    exact hgoes
  | unintern x =>
    obtain ⟨s1, hunintern, -, hkeep⟩ := tarpanUnintern_spec hs hc
    rw [exec, hunintern] at h
    cases h
    intro y z hy hz hyz
    rw [(hkeep y hy).2, (hkeep z hz).2] at hyz
    exact hval y z (hkeep y hy).1 (hkeep z hz).1 hyz

end TarpanCall

open TarpanCall

/-! ## Runs -/

def SharedStore.empty : SharedStore := ⟨.empty, fun _ => []⟩

/-- The stores that a sequence of calls leads to from the empty one, each call under the condition `step`. -/
inductive TarpanRun (step : SharedStore → TarpanCall → Prop) : List TarpanCall → SharedStore → Prop
  | init : TarpanRun step [] .empty
  | call {calls : List TarpanCall} {s s' : SharedStore} {c : TarpanCall} :
      TarpanRun step calls s → c.Allowed s.store → step s c → c.exec s = some s' → TarpanRun step (calls ++ [c]) s'

namespace TarpanRun

variable {step : SharedStore → TarpanCall → Prop} {calls : List TarpanCall} {s : SharedStore}

theorem ok (h : TarpanRun step calls s) : s.store.Ok := by
  induction h with
  | init => exact empty_ok
  | call _ hc _ hexec ih => exact exec_ok ih hc hexec

theorem byValue (h : TarpanRun GoesByValue calls s) : s.store.ByValue := by
  induction h with
  | init => exact fun x y hx => absurd hx (Nat.lt_irrefl 0)
  | call hrun hc hgoes hexec ih => exact exec_byValue hrun.ok ih hc hgoes hexec

end TarpanRun

/-- A run goes by value in all its calls exactly where the addresses tell in all of them; then the
store it leads to shares by value, and the next call goes by value exactly where the addresses tell. -/
theorem tarpanRun_byValue_iff (calls : List TarpanCall) (s : SharedStore) :
    (TarpanRun GoesByValue calls s ↔ TarpanRun AddressesTell calls s) ∧
    (TarpanRun AddressesTell calls s → s.store.ByValue ∧
      ∀ c : TarpanCall, c.Allowed s.store → (GoesByValue s c ↔ AddressesTell s c)) := by
  have hiff : TarpanRun GoesByValue calls s ↔ TarpanRun AddressesTell calls s := by
    constructor
    · intro h
      induction h with
      | init => exact .init
      | call hrun hc hgoes hexec ih => exact .call ih hc ((goesByValue_iff hrun.ok hrun.byValue hc).1 hgoes) hexec
    · intro h
      induction h with
      | init => exact .init
      | call _ hc htell hexec ih => exact .call ih hc ((goesByValue_iff ih.ok ih.byValue hc).2 htell) hexec
  exact ⟨hiff, fun h => ⟨(hiff.2 h).byValue, fun c hc => goesByValue_iff h.ok (hiff.2 h).byValue hc⟩⟩

/-- The message of a route of AS 1 with the given cost. -/
def sampleMessage (cost : UInt32) : TarpanMsg := { version := 12, wiser := some ⟨cost, 1, ⟨1, .none⟩, .none⟩ }

/-- The first message that is interned, at the address 4096. -/
theorem exists_first_interned (msg : TarpanMsg) : ∃ s, TarpanRun AddressesTell [.intern ⟨16, some 4096⟩ msg] s ∧
    (∀ x, s.store.Live x ↔ x = ⟨16, some 4096⟩) ∧ s.store.content ⟨16, some 4096⟩ = some msg ∧
    s.received ⟨16, some 4096⟩ = [msg] ∧ ∀ m ≠ 4096, s.store.Fresh ⟨32, some m⟩ := by
  let t : TarpanAttr := ⟨16, some 4096⟩
  have hfr : TarpanStore.empty.Fresh t := ⟨fun _ hx => absurd hx (Nat.lt_irrefl 0), _, rfl, rfl⟩
  obtain ⟨store, hint, hmem⟩ : ∃ store, tarpanIntern (TarpanStore.empty.place t msg) t = some (t, store) ∧
    store.messages = Function.update (fun _ => none) 4096 (some msg) := ⟨_, rfl, rfl⟩
  obtain ⟨find, store', hspec, -, hlive, -⟩ := tarpanIntern_spec msg empty_ok hfr
  rw [hint] at hspec
  cases hspec
  have honly : ∀ x, store.Live x ↔ x = t := by
    intro x
    rw [hlive, or_iff_right]
    exact fun h => absurd h (Nat.lt_irrefl 0)
  refine ⟨⟨store, SharedStore.empty.log t msg⟩, .call .init hfr (fun x hx => absurd hx (Nat.lt_irrefl 0)) ?_, honly, ?_,
    by simp [SharedStore.log, SharedStore.empty, TarpanStore.empty, InternTable.empty, t], fun m hm =>
      ⟨fun x hx => ?_, m, rfl, ?_⟩⟩
  · rw [exec, SharedStore.empty, hint]
    rfl
  · simp [content, hmem]
  · rw [(honly x).1 hx]
    exact (show (16 : Addr) ≠ 32 by decide)
  · rw [hmem, Function.update_of_ne hm]

/-- The same message comes again, at an address that agrees in its low half. -/
theorem tarpanRun_byValue_again : ∃ s, TarpanRun AddressesTell [.intern ⟨16, some 4096⟩ (sampleMessage 5)] s ∧
    s.store.Live ⟨16, some 4096⟩ ∧ GoesByValue s (.intern ⟨32, some 4294971392⟩ (sampleMessage 5)) := by
  obtain ⟨s, hrun, hlive, hcont, -, hfresh⟩ := exists_first_interned (sampleMessage 5)
  refine ⟨s, hrun, (hlive _).2 rfl, ?_⟩
  refine (((tarpanRun_byValue_iff _ s).2 hrun).2 (.intern _ _) (hfresh 4294971392 (by decide))).2 fun x hx => ?_
  rw [(hlive x).1 hx, hcont]
  exact ⟨iff_of_true (by decide) rfl, fun _ => rfl⟩

/-- With one message interned, neither an equal one elsewhere nor another one at an address that agrees in its low half
goes by value; nor does an equal one at such an address, once the handler has added to the stored cost. -/
theorem not_goesByValue_second : ∃ calls s, TarpanRun AddressesTell calls s ∧
    (∃ t, s.store.Fresh t ∧ ¬ GoesByValue s (.intern t (sampleMessage 5))) ∧
    (∃ t, s.store.Fresh t ∧ ¬ GoesByValue s (.intern t (sampleMessage 9))) ∧
    ∃ x s', x.Allowed s.store ∧ x.exec s = some s' ∧ TarpanRun AddressesTell (calls ++ [x]) s' ∧
      ∃ t, s'.store.Fresh t ∧ ¬ GoesByValue s' (.intern t (sampleMessage 5)) := by
  obtain ⟨s, hrun, hlive, hcont, hrecv, hfresh⟩ := exists_first_interned (sampleMessage 5)
  let t : TarpanAttr := ⟨16, some 4096⟩
  have ht : s.store.Live t := (hlive t).2 rfl
  have hval : s.store.ByValue := fun x y hx hy _ => ((hlive x).1 hx).trans ((hlive y).1 hy).symm
  have hwrite : AddressesTell s (.write t (sampleMessage 9)) := fun y hy _ => (hlive y).1 hy
  have hrun' : TarpanRun AddressesTell _ { s with store := s.store.place t (sampleMessage 9) } :=
    .call hrun (c := .write t (sampleMessage 9)) ht hwrite rfl
  have hfresh' : (s.store.place t (sampleMessage 9)).Fresh ⟨32, some 4294971392⟩ := by
    obtain ⟨haddr, m, hm, hnone⟩ := hfresh 4294971392 (by decide)
    refine ⟨fun x hx => haddr x ((place_live _).1 hx), m, hm, ?_⟩
    cases hm
    show Function.update s.store.messages 4096 (some (sampleMessage 9)) 4294971392 = none
    rw [Function.update_of_ne (by decide), hnone]
  refine ⟨_, s, hrun, ⟨⟨32, some 8192⟩, hfresh _ (by decide), ?_⟩, ⟨⟨32, some 4294971392⟩, hfresh _ (by decide), ?_⟩,
    .write t (sampleMessage 9), _, ht, rfl, hrun', ⟨32, some 4294971392⟩, hfresh', ?_⟩
  · rw [intern_goesByValue_iff hrun.ok hval (hfresh 8192 (by decide))]
    intro htell
    exact absurd ((htell t ht).1.2 hcont) (by decide)
  · rw [intern_goesByValue_iff hrun.ok hval (hfresh 4294971392 (by decide))]
    intro htell
    have h := (htell t ht).1.1 (by decide)
    rw [hcont] at h
    exact absurd h (by decide)
  · rw [intern_goesByValue_iff hrun'.ok ((write_goesByValue_iff hrun.ok hval ht).2 hwrite) hfresh']
    intro htell
    have h := (htell t ((place_live _).2 ht)).2 (by rw [hrecv]; exact List.mem_singleton_self _)
    rw [place_content_self rfl] at h
    exact absurd h (by decide)

end Tarpan.Bgpd
