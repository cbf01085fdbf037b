import VitaDebugger.RelyGuarantee

/-! The owner of a kernel stop. The lease keeper renews the published token while controllers
begin, recover, end and abandon stops; each side takes the owner word before it looks at the
token and gives the word back last. -/

namespace VitaDebugger.StopOwner
open AtomicProgram RelyGuarantee Rules Function

inductive Owner where
  | none | controller | lease
  deriving DecidableEq

/-- The threads around a stop. -/
inductive Party where
  | keeper
  | controller (thread : ℕ)
  deriving DecidableEq

/-- What a party stores in the owner word. -/
def Party.word : Party → Owner
  | .keeper => .lease
  | .controller _ => .controller

/-- The words of a stop; its token is numbered by the stores to it. -/
structure StopWords where
  token : UInt32
  tokenStores : ℕ
  generation : UInt32
  failed : Bool

def StopWords.published (s : StopWords) : UInt32 × ℕ := (s.token, s.tokenStores)

/-- The keeper renews a token or reports that its renewal failed: the token as it loaded it
and the one published at the use. -/
structure TokenUse where
  report : Bool
  loaded : UInt32 × ℕ
  present : UInt32 × ℕ

/-- The shared state with its history: who has won the owner word and what the keeper used. -/
structure StopState where
  words : StopWords
  owner : Owner
  inside : Party → Bool
  uses : List TokenUse

/-- What the kernel answers to one call. -/
structure KernelReply where
  status : ℤ
  token : UInt32
  alreadySuspendedCount : UInt32

abbrev Stop := Prog StopWords KernelReply

def addGeneration : Stop UInt32 := .perform fun s _ =>
  (s.generation + 1, { s with generation := s.generation + 1 })

def advanceStopGeneration : Stop UInt32 := do
  let generation ← addGeneration
  if generation = 0 then addGeneration else pure generation

def publishStopToken (token : UInt32) : Stop UInt32 := do
  Prog.modify fun s => { s with token, tokenStores := s.tokenStores + 1 }
  advanceStopGeneration

def retireStopToken : Stop UInt32 := publishStopToken 0

def storeFailed (failed : Bool) : Stop Unit := .modify fun s => { s with failed }

def failedResult : Stop ℤ := .read fun s => if s.failed then -1 else 0

def beginStop : Stop ℤ := do
  let token ← Prog.read (·.token)
  if token ≠ 0 then failedResult
  else
    let result ← Prog.ask id
    if result.status < 0 ∨ result.token = 0 then pure (-1)
    else
      storeFailed false
      let _ ← publishStopToken result.token
      pure (if result.alreadySuspendedCount = 0 then 0 else -1)

def recoverStop : Stop ℤ := do
  let token ← Prog.read (·.token)
  let renewed ← if token = 0 then pure (-1) else Prog.ask (·.status)
  if 0 ≤ renewed then
    storeFailed false
    pure 0
  else
    let recovery ← Prog.ask id
    if 0 ≤ recovery.status ∧ recovery.token ≠ 0 then
      storeFailed false
      let _ ← publishStopToken recovery.token
      pure 0
    else
      -- the old token stays published: cleanup may still end its session
      storeFailed true
      pure (-1)

def endStop : Stop ℤ := do
  let token ← Prog.read (·.token)
  if token = 0 then failedResult
  else
    let result ← Prog.ask (·.status)
    if 0 ≤ result then
      let _ ← retireStopToken
      storeFailed false
      pure 0
    else
      let recovered ← recoverStop
      pure (if 0 ≤ recovered then -1 else -2)

def abandonStop : Stop ℤ := do
  let _ ← retireStopToken
  storeFailed true
  pure 0

/-- Any of a controller's calls one after the other. -/
inductive Works : Stop ℤ → Prop
  | begin : Works beginStop
  | recover : Works recoverStop
  | finish : Works endStop
  | abandon : Works abandonStop
  | next {p q : Stop ℤ} (first : Works p) (second : Works q) : Works (p >>= fun _ => q)

def wordsPart : Prog.Part StopState StopWords KernelReply KernelReply where
  view := (·.words)
  put s words := { s with words }
  answer := id
  view_put _ _ := rfl
  put_put _ _ _ := rfl
  put_view _ := rfl

abbrev Owning := Prog StopState KernelReply

/-- One exchange of the owner word. -/
def claim (me : Party) : Owning Bool := .perform fun s _ =>
  if s.owner = .none then (true, { s with owner := me.word, inside := update s.inside me true })
  else (false, s)

def release (me : Party) : Owning Unit := .modify fun s =>
  { s with owner := .none, inside := update s.inside me false }

/-- What `me` does behind the owner word. A controller that loses the exchange has changed
nothing and tries again; the keeper gives up. -/
def owning (me : Party) (body : Owning Unit) : Owning Unit := do
  let won ← claim me
  if won then
    body
    release me

def controllerCall (thread : ℕ) (work : Stop ℤ) : Owning Unit :=
  owning (.controller thread) do
    let _ ← work.lift wordsPart
    pure ()

def noteUse (report : Bool) (loaded : UInt32 × ℕ) (failed : Bool) (s : StopState) : StopState :=
  { s with
    words := { s.words with failed }
    uses := s.uses ++ [⟨report, loaded, s.words.published⟩] }

def publishStopFailure (loaded : UInt32 × ℕ) (generation : UInt32) : Owning Unit := do
  let token ← Prog.read (·.words.token)
  if token = loaded.1 then
    let present ← Prog.read (·.words.generation)
    if present = generation then
      Prog.modify (noteUse true loaded true)

/-- The keeper with a token; the connection it closes after a report is left out. -/
def renewLoaded (generation : UInt32) (loaded : UInt32 × ℕ) : Owning Unit := do
  if loaded.1 ≠ 0 then
    let failed ← Prog.read (·.words.failed)
    if failed = false then
      let result ← Prog.perform fun s w => (w.status, noteUse false loaded s.words.failed s)
      if result < 0 then publishStopFailure loaded generation

def leaseRenewOnce : Owning Unit := owning .keeper do
  let generation ← Prog.read (·.words.generation)
  let loaded ← Prog.read (·.words.published)
  renewLoaded generation loaded

/-- The keeper renews and any number of controllers work. -/
inductive Starts : Party → StopState → Owning Unit → Prop
  | keeper (s : StopState) : Starts .keeper s leaseRenewOnce
  | controller (s : StopState) (thread : ℕ) {work : Stop ℤ} (works : Works work) :
      Starts (.controller thread) s (controllerCall thread work)

structure Inv (s : StopState) : Prop where
  owned : ∀ p, s.inside p = true → s.owner = p.word
  single : ∀ p q, s.inside p = true → s.inside q = true → p = q
  current : ∀ u ∈ s.uses, u.present = u.loaded

/-- What a party may count on: only it wins and gives up the word for itself, and while it has
the word nobody else stores to a stop's words. -/
def Undisturbed (p : Party) (s t : StopState) : Prop :=
  t.inside p = s.inside p ∧ (s.inside p = true → t.words = s.words)

def stopRules : Rules Party StopState where
  within _ := True
  inv := Inv
  rely := Undisturbed
  guarantee p s t := ∀ q, q ≠ p → Undisturbed q s t
  idle p s := s.inside p = false
  refl _ _ := ⟨rfl, fun _ => rfl⟩
  trans _ _ _ _ first second :=
    ⟨second.1.trans first.1, fun here => (second.2 (first.1.trans here)).trans (first.2 here)⟩
  compatible _ _ _ _ distinct _ _ kept := kept _ distinct.symm
  stable _ _ _ moved idle := moved.1.trans idle

section Owned
variable {α : Type} {me : Party} {loaded : UInt32 × ℕ} {s t : StopState}

/-- What an owner does to the words is out of the others' sight. -/
theorem Inv.unseen (inv : Inv s) (hh : s.inside me = true) (hi : t.inside = s.inside)
    (q : Party) (ho : q ≠ me) : Undisturbed q s t :=
  ⟨congrFun hi q, fun ht => absurd (inv.single q me ht hh) ho⟩

theorem holds_work (p : Stop α) (hh : s.inside me = true) :
    stopRules.Holds me (p.lift wordsPart) (fun _ t => t.inside me = true) s := by
  induction p generalizing s with
  | ret a => exact hh
  | act u n ih =>
    intro t inv hm w _
    have hh := hm.1.trans hh
    exact ⟨{ inv with }, inv.unseen hh rfl, ih t.words w hh⟩

/-- The keeper owns the stop and its token is the published one. -/
def Renewing (loaded : UInt32 × ℕ) (s : StopState) : Prop :=
  s.inside .keeper = true ∧ s.words.published = loaded

theorem Renewing.undisturbed (hr : Renewing loaded s) (hm : Undisturbed .keeper s t) :
    Renewing loaded t :=
  ⟨hm.1.trans hr.1, (congrArg _ (hm.2 hr.1)).trans hr.2⟩

theorem holds_look {f : StopState → α} {Q : α → StopState → Prop} (hr : Renewing loaded s)
    (h : ∀ t, Renewing loaded t → Q (f t) t) :
    stopRules.Holds .keeper (Prog.read f : Owning α) Q s :=
  fun t inv hm _ _ =>
    ⟨inv, inv.unseen (hm.1.trans hr.1) rfl, h t (hr.undisturbed hm)⟩

theorem holds_use {f : StopState → KernelReply → α × StopState} (hr : Renewing loaded s)
    (hno : ∀ t w, ∃ r fails, (f t w).2 = noteUse r loaded fails t) :
    stopRules.Holds .keeper (.perform f) (fun _ t => Renewing loaded t) s := by
  intro t inv hm w _
  have hh := hr.undisturbed hm
  obtain ⟨r, fails, hn⟩ := hno t w
  dsimp only
  rw [hn]
  refine ⟨⟨inv.owned, inv.single, fun u mem => ?_⟩, inv.unseen hh.1 rfl, hh⟩
  rcases List.mem_append.mp mem with hb | hl
  · exact inv.current u hb
  · rw [List.mem_singleton.mp hl]
    exact hh.2

theorem holds_renewLoaded (generation : UInt32) (hr : Renewing loaded s) :
    stopRules.Holds .keeper (renewLoaded generation loaded)
      (fun _ t => t.inside .keeper = true) s := by
  simp only [renewLoaded, publishStopFailure, holds_ite, holds_bind]
  refine ⟨fun _ => holds_look hr fun t hh => ⟨fun _ => ?_, fun _ => hh.1⟩,
    fun _ => hr.1⟩
  refine (holds_use hh fun t _ => ⟨false, t.words.failed, rfl⟩).mono fun result u hh =>
    ⟨fun _ => ?_, fun _ => hh.1⟩
  refine holds_look hh fun v hh => ⟨fun _ => ?_, fun _ => hh.1⟩
  refine holds_look hh fun v hh => ⟨fun _ => ?_, fun _ => hh.1⟩
  exact (holds_use hh fun _ _ => ⟨true, true, rfl⟩).mono fun _ _ hh => hh.1

/-- Whoever finds the word free is the only one that has it. -/
theorem holds_owning {body : Owning Unit} (hi : s.inside me = false)
    (how : ∀ t, t.inside me = true →
      stopRules.Holds me body (fun _ t => t.inside me = true) t) :
    stopRules.Holds me (owning me body) (fun _ t => t.inside me = false) s := by
  simp only [owning, holds_ite, holds_bind]
  intro t inv hm w _
  dsimp only
  split
  · next hf =>
    have hw {p : Party} (has : update t.inside me true p = true) : p = me := by
      by_contra ho
      rw [update_of_ne ho] at has
      have ht := (inv.owned p has).symm.trans hf
      cases p <;> cases ht
    refine ⟨⟨fun p has => hw has ▸ rfl, fun p q has hh' => (hw has).trans (hw hh').symm,
      inv.current⟩, fun q ho => ⟨update_of_ne ho _ _, fun _ => rfl⟩, fun _ => ?_, fun h =>
      absurd rfl h⟩
    refine (how _ (update_self ..)).mono fun _ u hh => ?_
    intro v inv hm w _
    have hn {p : Party} (has : update v.inside me false p = true) : False := by
      by_cases hs : p = me
      · subst hs
        simp at has
      · rw [update_of_ne hs] at has
        exact hs (inv.single p me has (hm.1.trans hh))
    exact ⟨⟨fun p has => (hn has).elim, fun p q has => (hn has).elim, inv.current⟩,
      fun q ho => ⟨update_of_ne ho _ _, fun _ => rfl⟩, update_self ..⟩
  · exact ⟨inv, fun q _ => ⟨rfl, fun _ => rfl⟩, (by rintro ⟨⟩), fun _ => hm.1.trans hi⟩

theorem starts_holds (p : Party) (s : StopState) (call : Owning Unit) (hs : Starts p s call)
    (_ : Inv s) (hi : s.inside p = false) :
    stopRules.Holds p call (fun _ t => t.inside p = false) s := by
  cases hs with
  | keeper =>
    refine holds_owning hi fun t hh => ?_
    simp only [holds_bind]
    refine holds_look ⟨hh, rfl⟩ fun u hr => ?_
    intro v inv hm _ _
    have hh := hm.1.trans hr.1
    exact ⟨inv, inv.unseen hh rfl, holds_renewLoaded _ ⟨hh, rfl⟩⟩
  | controller _ thread hw =>
    refine holds_owning hi fun t hh => ?_
    exact (holds_work _ hh).bind fun _ _ hh => hh

end Owned

/-- A stop nobody owns, with any words. -/
def unowned (words : StopWords) : StopState := ⟨words, .none, fun _ => false, []⟩

/-- The keeper and a controller never own the stop together, and a token that the keeper renews,
or whose failed renewal it reports, is the published one, not stored to since it was loaded. -/
theorem stop_owner {words : StopWords} {c : Config Party StopState KernelReply}
    (run : Run Starts (unowned words) c) :
    (∀ thread, ¬(c.shared.inside .keeper = true ∧ c.shared.inside (.controller thread) = true)) ∧
      ∀ u ∈ c.shared.uses, u.present = u.loaded := by
  have hst : Inv (unowned words) := ⟨nofun, nofun, nofun⟩
  have hs : Safe stopRules c := run.safe starts_holds (fun _ => trivial) hst fun _ => rfl
  refine ⟨fun thread hb => ?_, hs.inv.current⟩
  cases hs.inv.single _ _ hb.1 hb.2

theorem stop_owner_failed_renewal :
    ∃ c, Run Starts (unowned ⟨5, 0, 0, false⟩) c ∧ c.shared.uses.length = 2 ∧
      ∀ u ∈ c.shared.uses, u.present = u.loaded := by
  have ho : (leaseRenewOnce.exec (List.replicate 9 ⟨-1, 0, 0⟩) (unowned ⟨5, 0, 0, false⟩)).map
      (·.2.1.uses.length) = some 2 := by
    decide +kernel
  obtain ⟨⟨_, t, _⟩, ran, hu⟩ := Option.map_eq_some_iff.mp ho
  have run : Run Starts (unowned ⟨5, 0, 0, false⟩) ⟨t, _⟩ :=
    (Run.init.step (.call .keeper _ rfl (.keeper _))).finish (Prog.ends_of_exec ran)
  exact ⟨_, run, hu, (stop_owner run).2⟩

end VitaDebugger.StopOwner
