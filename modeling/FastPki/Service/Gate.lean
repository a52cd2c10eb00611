import FastPki.Auth.Login
import FastPki.Framework.Decimal
import FastPki.Framework.History
import FastPki.Framework.Rows

namespace FastPki.Service

open X509
open Auth (lowerText asciiUpper)

/-- The table `config`. -/
abbrev Config := List (Octets × Octets)

def configValue (cfg : Config) (k : Octets) : Option Octets := (lookup Prod.fst k cfg).map Prod.snd

def setConfig (cfg : Config) (k v : Octets) : Config := upsert Prod.fst (k,v) cfg

def deleteConfig (cfg : Config) (k : Octets) : Config := remove Prod.fst k cfg

def truthy (v : Octets) : Bool :=
  let v := lowerText v
  !(v = octets "0" || v = octets "false" || v = octets "no" || v = octets "off")

def endpointKey (suffix : String) (proto : Octets) : Octets := proto.map asciiUpper++octets suffix

def endpointEnabledKey : Octets → Octets := endpointKey "_ENABLED"
def endpointRestartKey : Octets → Octets := endpointKey "_RESTART_AT"
def endpointStartedKey : Octets → Octets := endpointKey "_STARTED_AT"

/-- A protocol that nobody has switched off is on. -/
def endpointEnabled (cfg : Config) (proto : Octets) : Bool :=
  (configValue cfg (endpointEnabledKey proto)).elim true truthy

/-- `none` is a database that does not answer: it takes no listener down. -/
def enabledNow (read : Option Config) (proto : Octets) : Bool :=
  read.elim true (endpointEnabled · proto)

/-- Why a process stopped of itself. -/
inductive Cause where
  | tokenDied
  | switchedOff
  | restart (marker : Int)
  deriving DecidableEq

/-- A process of the protocol: before it opens its port, or after. `started` is when it came up. -/
inductive Phase where
  | down
  | waiting (started : Int)
  | serving (started : Int) (everUsable : Bool)
  deriving DecidableEq

/-- What a poll of the running process meets: the key it is told to watch, whether a signature with
it succeeds, and whether the database answers. -/
structure Probe where
  uri : Octets
  usable : Bool
  readable : Bool
  deriving DecidableEq

section Code

-- `appCfg` is whether the caller gave a configuration to load the key with
variable (proto : Octets) (appCfg : Bool)

def probesToken (p : Probe) : Bool := appCfg && (octets "pkcs11:").isPrefixOf p.uri

def restartMarker (cfg : Config) : Option Int :=
  (configValue cfg (endpointRestartKey proto)).map Decimal.atoll

/-- One turn of the watcher: whether the key has ever been usable from here on, or the exit. -/
def watch (cfg : Config) (started : Int) (everUsable : Bool) (p : Probe) : Cause ⊕ Bool :=
  if probesToken appCfg p && !p.usable && everUsable then .inl .tokenDied
  else
    let ever := everUsable || (probesToken appCfg p && p.usable)
    if !p.readable then .inr ever
    else if !endpointEnabled cfg proto then .inl .switchedOff
    else match restartMarker proto cfg with
      | some m => if m > started then .inl (.restart m) else .inr ever
      | none => .inr ever

structure Exit where
  pid : Nat
  started : Int
  cause : Cause
  deriving DecidableEq

/-- The configuration and the process, with its number among all so far; all exits, the newest first;
and the time. -/
structure State where
  config : Config
  phase : Phase
  pid : Nat
  exits : List Exit
  clock : Int

inductive Act where
  /-- The restart policy starts a process that has stopped. -/
  | boot
  /-- A turn of the loop that waits for the switch; `stamped` is whether the start was recorded. -/
  | wait (readable stamped : Bool)
  | poll (p : Probe)
  /-- The process is killed, or something else in it ends it. -/
  | kill
  /-- The console's switch and its restart button, and any other write to the table. -/
  | enable (on : Bool)
  | restart
  | put (k v : Octets)
  | delete (k : Octets)
  deriving DecidableEq

def openGate (s : State) (started : Int) (stamped : Bool) : State :=
  { s with
    phase := .serving started false
    config := if stamped then setConfig s.config (endpointStartedKey proto) (Decimal.text s.clock)
      else s.config }

def act (s : State) : Act → State
  | .boot =>
    match s.phase with
    | .down => { s with phase := .waiting s.clock,pid := s.pid+1 }
    | _ => s
  | .wait readable stamped =>
    match s.phase with
    | .waiting started =>
      if enabledNow (if readable then some s.config else none) proto then
        openGate proto s started stamped
      else s
    | _ => s
  | .poll p =>
    match s.phase with
    | .serving started ever =>
      match watch proto appCfg s.config started ever p with
      | .inl cause => { s with phase := .down,exits := ⟨s.pid,started,cause⟩::s.exits }
      | .inr ever => { s with phase := .serving started ever }
    | _ => s
  | .kill => { s with phase := .down }
  | .enable on =>
    let want := octets (if on then "true" else "false")
    { s with config := setConfig s.config (endpointEnabledKey proto) want }
  | .restart =>
    { s with config := setConfig s.config (endpointRestartKey proto) (Decimal.text s.clock) }
  | .put k v => { s with config := setConfig s.config k v }
  | .delete k => { s with config := deleteConfig s.config k }

/-- An action at a time. -/
def step (s : State) (a : Int × Act) : State := act proto appCfg { s with clock := a.1 } a.2

end Code

def State.start (config : Config) (clock : Int) : State := ⟨config,.down,0,[],clock⟩

section Watch

/-- What one turn of the watcher can end in. -/
inductive Watched (proto : Octets) (appCfg : Bool) (cfg : Config) (started : Int) (ever : Bool)
    (p : Probe) : Cause ⊕ Bool → Prop
  | died (hprobe : probesToken appCfg p=true) (hdead : p.usable=false) (hever : ever=true) :
      Watched proto appCfg cfg started ever p (.inl .tokenDied)
  | off (hread : p.readable=true) (hoff : endpointEnabled cfg proto=false) :
      Watched proto appCfg cfg started ever p (.inl .switchedOff)
  | restart {m : Int} (hread : p.readable=true) (hon : endpointEnabled cfg proto=true)
      (hm : restartMarker proto cfg=some m) (hlater : started < m) :
      Watched proto appCfg cfg started ever p (.inl (.restart m))
  | goOn : Watched proto appCfg cfg started ever p (.inr (ever || (probesToken appCfg p && p.usable)))

theorem watch_cases (proto : Octets) (appCfg : Bool) (cfg : Config) (started : Int) (ever : Bool)
    (p : Probe) : Watched proto appCfg cfg started ever p (watch proto appCfg cfg started ever p) := by
  rw [watch]
  split_ifs with hdied hread hon
  · simp only [Bool.and_eq_true,Bool.not_eq_true'] at hdied
    exact Watched.died hdied.1.1 hdied.1.2 hdied.2
  · exact Watched.goOn
  · exact Watched.off (by simpa using hread) (by simpa using hon)
  · split
    · rename_i m hm
      split_ifs with hlater
      · exact Watched.restart (by simpa using hread) (by simpa using hon) hm hlater
      · exact Watched.goOn
    · exact Watched.goOn

end Watch

section Does

variable (proto : Octets) (appCfg : Bool)

/-- All that an action can do to the process. -/
inductive Does (s : State) : Act → State → Prop
  | idle {a : Act} (config : Config) : Does s a { s with config }
  | killed : Does s .kill { s with phase := .down }
  | boot (h : s.phase=.down) : Does s .boot { s with phase := .waiting s.clock,pid := s.pid+1 }
  | opened {a : Act} {started : Int} (config : Config) (h : s.phase=.waiting started) :
      Does s a { s with config,phase := .serving started false }
  | turn {p : Probe} {started : Int} {ever ever' : Bool} (h : s.phase=.serving started ever)
      (hw : Watched proto appCfg s.config started ever p (.inr ever')) :
      Does s (.poll p) { s with phase := .serving started ever' }
  | exit {p : Probe} {started : Int} {ever : Bool} {cause : Cause}
      (h : s.phase=.serving started ever)
      (hw : Watched proto appCfg s.config started ever p (.inl cause)) :
      Does s (.poll p) { s with phase := .down,exits := ⟨s.pid,started,cause⟩::s.exits }

variable {proto appCfg}

theorem act_does (proto : Octets) (appCfg : Bool) (s : State) (a : Act) :
    Does proto appCfg s a (act proto appCfg s a) := by
  cases a with
  | boot =>
    simp only [act]
    split
    · rename_i h
      exact Does.boot h
    · exact Does.idle s.config
  | wait readable stamped =>
    simp only [act]
    split
    · rename_i started h
      by_cases hon : enabledNow (if readable then some s.config else none) proto=true
      · rw [if_pos hon]
        exact Does.opened _ h
      · rw [if_neg hon]
        exact Does.idle s.config
    · exact Does.idle s.config
  | poll p =>
    simp only [act]
    split
    · rename_i started ever h
      have hw := watch_cases proto appCfg s.config started ever p
      split
      · rename_i cause hcause
        rw [hcause] at hw
        exact Does.exit h hw
      · rename_i ever' hever
        rw [hever] at hw
        exact Does.turn h hw
    · exact Does.idle s.config
  | kill => exact Does.killed
  | enable on => exact Does.idle _
  | restart => exact Does.idle _
  | put k v => exact Does.idle _
  | delete k => exact Does.idle _

end Does

section Causes

variable (proto : Octets) (appCfg : Bool) (config : Config) (clock : Int)

/-- The state after these actions. -/
def after (acts : List (Int × Act)) : State :=
  run (step proto appCfg) (State.start config clock) acts

/-- The key that was watched worked in this process. -/
def WorkedIn (acts : List (Int × Act)) (pid : Nat) : Prop :=
  Happened (fun pre a => ∃ p,a.2=.poll p ∧ probesToken appCfg p=true ∧ p.usable=true ∧
    (after proto appCfg config clock pre).pid=pid) acts

/-- Why a process stopped, against what it met. -/
def Explained (pre : List (Int × Act)) (p : Probe) (e : Exit) : Prop :=
  match e.cause with
  | .tokenDied => probesToken appCfg p=true ∧ p.usable=false ∧
      WorkedIn proto appCfg config clock pre e.pid
  | .switchedOff => p.readable=true ∧
      endpointEnabled (after proto appCfg config clock pre).config proto=false
  | .restart m => p.readable=true ∧
      endpointEnabled (after proto appCfg config clock pre).config proto=true ∧
      restartMarker proto (after proto appCfg config clock pre).config=some m ∧ e.started < m

variable {proto appCfg config clock}

/-- A process knows its key to be usable only if it has seen it work. -/
theorem worked_of_serving (acts : List (Int × Act)) : ∀ started,
    (after proto appCfg config clock acts).phase=.serving started true →
      WorkedIn proto appCfg config clock acts (after proto appCfg config clock acts).pid := by
  refine run_history (I := fun acts (s : State) => ∀ started,s.phase=.serving started true →
    WorkedIn proto appCfg config clock acts s.pid) (fun started h => ?_) ?_ acts
  · cases h
  · intro acts a ih started h
    have hstep := act_does proto appCfg
      { after proto appCfg config clock acts with clock := a.1 } a.2
    change Does proto appCfg { after proto appCfg config clock acts with clock := a.1 } a.2
      (step proto appCfg (after proto appCfg config clock acts) a) at hstep
    change WorkedIn proto appCfg config clock (acts++[a])
      (step proto appCfg (after proto appCfg config clock acts) a).pid
    change (step proto appCfg (after proto appCfg config clock acts) a).phase=_ at h
    generalize hpoll : a.2=b at hstep
    generalize step proto appCfg (after proto appCfg config clock acts) a=t at hstep h
    cases hstep with
    | idle config => exact (ih started h).append [a]
    | killed => cases h
    | boot _ => cases h
    | opened _ _ => cases h
    | @turn p started' ever ever' hphase hw =>
      cases hw with
      | goOn =>
        cases hever : ever with
        | true =>
          rw [hever] at hphase
          exact (ih started' hphase).append [a]
        | false =>
          rw [hever,Bool.false_or] at h
          have hboth : (probesToken appCfg p && p.usable)=true := by
            injection h
          rw [Bool.and_eq_true] at hboth
          exact Happened.last ⟨p,hpoll,hboth.1,hboth.2,rfl⟩
    | exit _ _ => cases h

theorem exit_step (proto : Octets) (appCfg : Bool) (s : State) (a : Int × Act) :
    ∀ e∈(step proto appCfg s a).exits,e∈s.exits ∨
    ∃ p ever,a.2=.poll p ∧ s.phase=.serving e.started ever ∧ e.pid=s.pid ∧
      Watched proto appCfg s.config e.started ever p (.inl e.cause) := by
  intro e he
  have hstep : Does proto appCfg { s with clock := a.1 } a.2 (step proto appCfg s a) :=
    act_does proto appCfg { s with clock := a.1 } a.2
  generalize a.2=b at hstep
  generalize step proto appCfg s a=t at hstep he
  cases hstep with
  | idle config => exact Or.inl he
  | killed => exact Or.inl he
  | boot _ => exact Or.inl he
  | opened _ _ => exact Or.inl he
  | turn _ _ => exact Or.inl he
  | @exit p started ever cause hphase hw =>
    obtain rfl|he := List.mem_cons.mp he
    · exact Or.inr ⟨p,ever,rfl,hphase,rfl,hw⟩
    · exact Or.inl he

/-- A process of a protocol that nothing else ends stops for one of three reasons only. It was switched off, or a restart
was asked for after it came up, and it read so in the configuration; or its key has stopped working,
which it has seen work itself. A database that does not answer and a key that was never there stop
nothing. -/
theorem gate_exit_caused (acts : List (Int × Act)) : ∀ e∈(after proto appCfg config clock acts).exits,
    Happened (fun pre a => ∃ p ever,a.2=.poll p ∧
      (after proto appCfg config clock pre).phase=.serving e.started ever ∧
      (after proto appCfg config clock pre).pid=e.pid ∧
      Explained proto appCfg config clock pre p e) acts := by
  intro e he
  have hexit := happened_of_mem_run (f := State.exits)
    (exit_step proto appCfg) rfl acts e he
  refine hexit.imp fun pre a h => ?_
  obtain ⟨p,ever,hpoll,hphase,hpid,hw⟩ := h
  refine ⟨p,ever,hpoll,hphase,hpid.symm,?_⟩
  obtain ⟨pid,started,cause⟩ := e
  cases hw with
  | died hprobe hdead hever =>
    obtain rfl := hever
    refine ⟨hprobe,hdead,?_⟩
    rw [hpid]
    exact worked_of_serving pre started hphase
  | off hread hoff => exact ⟨hread,hoff⟩
  | restart hread hon hm hlater => exact ⟨hread,hon,hm,hlater⟩

/-- A key that works at one turn of the watcher and not at the next. -/
def keyLost : List (Int × Act) :=
  [(100,.boot),(100,.wait true true),(110,.poll ⟨octets "pkcs11:object=ra",true,true⟩),
    (120,.poll ⟨octets "pkcs11:object=ra",false,false⟩)]

theorem gate_exit_caused_key : ∃ e∈(after (octets "scep") true [] 100 keyLost).exits,
    e.cause=.tokenDied ∧ Happened (fun pre a => ∃ p ever,a.2=.poll p ∧
      (after (octets "scep") true [] 100 pre).phase=.serving e.started ever ∧
      (after (octets "scep") true [] 100 pre).pid=e.pid ∧
      Explained (octets "scep") true [] 100 pre p e) keyLost := by
  have hexit : ⟨1,100,.tokenDied⟩∈(after (octets "scep") true [] 100 keyLost).exits := by
    decide +kernel
  exact ⟨⟨1,100,.tokenDied⟩,hexit,rfl,gate_exit_caused keyLost ⟨1,100,.tokenDied⟩ hexit⟩

end Causes

section Once

variable {proto : Octets} {appCfg : Bool}

/-- A restart that is written by hand. -/
def Act.marker (proto : Octets) : Act → Option Int
  | .put k v => if k=endpointRestartKey proto then some (Decimal.atoll v) else none
  | _ => none

/-- Time does not go back, and nobody writes a restart into the future by hand. -/
def InTime (proto : Octets) (s : State) (a : Int × Act) : Prop :=
  s.clock ≤ a.1 ∧ ∀ m∈a.2.marker proto,m ≤ a.1

instance (proto : Octets) (s : State) (a : Int × Act) : Decidable (InTime proto s a) :=
  inferInstanceAs (Decidable (_ ∧ _))

def Exit.marker (e : Exit) : Option Int :=
  match e.cause with
  | .restart m => some m
  | _ => none

theorem configValue_setConfig (cfg : Config) (k v k' : Octets) :
    configValue (setConfig cfg k v) k'=if k=k' then some v else configValue cfg k' := by
  split_ifs with h
  · obtain rfl := h
    have hself : lookup Prod.fst k (upsert Prod.fst (k,v) cfg)=some (k,v) :=
      lookup_upsert_self (k,v) cfg
    rw [configValue,setConfig,hself]
    rfl
  · have hother : lookup Prod.fst k' (upsert Prod.fst (k,v) cfg)=lookup Prod.fst k' cfg :=
      lookup_upsert_of_ne cfg h
    rw [configValue,setConfig,hother,configValue]

theorem configValue_deleteConfig {cfg : Config} {k k' v : Octets}
    (h : configValue (deleteConfig cfg k) k'=some v) : configValue cfg k'=some v := by
  rw [configValue,deleteConfig,lookup_remove] at h
  split_ifs at h
  · cases h
  · exact h

/-- The keys of a protocol differ by what stands behind its name. -/
theorem endpointKey_ne {x y : String} (h : octets x≠octets y) (p : Octets) :
    endpointKey x p≠endpointKey y p :=
  fun heq => h (List.append_cancel_left heq)

/-- No marker is ahead of the time, and every restart that was served was asked for before the
process that is now there came up. -/
structure Timely (proto : Octets) (s : State) : Prop where
  marker : ∀ m∈restartMarker proto s.config,m ≤ s.clock
  served : ∀ m∈s.exits.filterMap Exit.marker,m ≤ s.clock
  started : ∀ started,s.phase=.waiting started ∨ (∃ ever,s.phase=.serving started ever) →
    ∀ m∈s.exits.filterMap Exit.marker,m ≤ started
  order : (s.exits.filterMap Exit.marker).Pairwise (· > ·)

theorem Timely.tick {s : State} (hs : Timely proto s) {now : Int} (h : s.clock ≤ now) :
    Timely proto { s with clock := now } where
  marker m hm := (hs.marker m hm).trans h
  served m hm := (hs.served m hm).trans h
  started := hs.started
  order := hs.order

theorem Timely.setConfig {s : State} (hs : Timely proto s) {k v : Octets}
    (h : k=endpointRestartKey proto → Decimal.atoll v ≤ s.clock) :
    Timely proto { s with config := setConfig s.config k v } := by
  refine ⟨?_,hs.served,hs.started,hs.order⟩
  intro m hm
  rw [restartMarker,configValue_setConfig] at hm
  split_ifs at hm with hk
  · rw [Option.map_some,Option.mem_some_iff] at hm
    rw [← hm]
    exact h hk
  · exact hs.marker m hm

theorem down_not_up (started : Int) :
    ¬(Phase.down=.waiting started ∨ ∃ ever,Phase.down=.serving started ever) := by
  intro h
  obtain h|⟨ever,h⟩ := h
  · cases h
  · cases h

/-- A process stops for a marker only that is later than all it has known. -/
theorem Timely.exit {s : State} (hs : Timely proto s) {started : Int} {ever : Bool} {p : Probe}
    {cause : Cause} (hbefore : ∀ m∈s.exits.filterMap Exit.marker,m ≤ started)
    (hw : Watched proto appCfg s.config started ever p (.inl cause)) :
    Timely proto { s with phase := .down,exits := ⟨s.pid,started,cause⟩::s.exits } := by
  cases hw with
  | died _ _ _ => exact ⟨hs.marker,hs.served,fun _ h => absurd h (down_not_up _),hs.order⟩
  | off _ _ => exact ⟨hs.marker,hs.served,fun _ h => absurd h (down_not_up _),hs.order⟩
  | @restart m _ _ hm hlater =>
    refine ⟨hs.marker,?_,fun _ h => absurd h (down_not_up _),?_⟩
    · intro m' hm'
      obtain rfl|hm' := List.mem_cons.mp hm'
      · exact hs.marker m' hm
      · exact hs.served m' hm'
    · refine List.pairwise_cons.mpr ⟨?_,hs.order⟩
      intro m' hm'
      exact (hbefore m' hm').trans_lt hlater

theorem Timely.act {s : State} (hs : Timely proto s) {a : Act}
    (ha : ∀ m∈a.marker proto,m ≤ s.clock) :
    Timely proto (act proto appCfg s a) := by
  cases a with
  | boot =>
    simp only [Service.act]
    split
    · refine ⟨hs.marker,hs.served,?_,hs.order⟩
      intro started hphase
      obtain h|⟨ever,h⟩ := hphase
      · injection h with h
        rw [← h]
        exact hs.served
      · cases h
    · exact hs
  | wait readable stamped =>
    simp only [Service.act]
    split
    · rename_i started hphase
      by_cases hon : enabledNow (if readable then some s.config else none) proto=true
      · rw [if_pos hon,openGate]
        have hkey : endpointStartedKey proto≠endpointRestartKey proto := endpointKey_ne (by decide) proto
        have hserving : Timely proto { s with phase := .serving started false } := by
          refine ⟨hs.marker,hs.served,?_,hs.order⟩
          intro started' h
          obtain h|⟨ever,h⟩ := h
          · cases h
          · injection h with h
            rw [← h]
            exact hs.started started (Or.inl hphase)
        split_ifs
        · exact hserving.setConfig fun h => absurd h hkey
        · exact hserving
      · rw [if_neg hon]
        exact hs
    · exact hs
  | poll p =>
    simp only [Service.act]
    split
    · rename_i started ever hphase
      have hbefore := hs.started started (Or.inr ⟨ever,hphase⟩)
      have hw := watch_cases proto appCfg s.config started ever p
      split
      · rename_i cause hcause
        rw [hcause] at hw
        exact hs.exit hbefore hw
      · refine ⟨hs.marker,hs.served,?_,hs.order⟩
        intro started' h
        obtain h|⟨ever',h⟩ := h
        · cases h
        · injection h with h
          rw [← h]
          exact hbefore
    · exact hs
  | kill => exact ⟨hs.marker,hs.served,fun _ h => absurd h (down_not_up _),hs.order⟩
  | enable on =>
    have hkey : endpointEnabledKey proto≠endpointRestartKey proto := endpointKey_ne (by decide) proto
    exact hs.setConfig fun h => absurd h hkey
  | restart => exact hs.setConfig fun _ => by rw [Decimal.atoll_text]
  | put k v =>
    refine hs.setConfig fun hk => ha _ ?_
    rw [Act.marker,if_pos hk]
    rfl
  | delete k =>
    refine ⟨?_,hs.served,hs.started,hs.order⟩
    intro m hm
    obtain ⟨v,hv,rfl⟩ := Option.map_eq_some_iff.mp hm
    exact hs.marker _ (by rw [restartMarker,configValue_deleteConfig hv]; rfl)

theorem Timely.step {s : State} (hs : Timely proto s) {a : Int × Act} (ha : InTime proto s a) :
    Timely proto (step proto appCfg s a) :=
  (hs.tick ha.1).act ha.2

/-- No restart is served twice: the markers that processes stop for grow strictly from one to the
next, whatever else is written to the table meanwhile and however often the process comes up. -/
theorem gate_restart_once {config : Config} {clock : Int} {acts : List (Int × Act)}
    (h0 : ∀ m∈restartMarker proto config,m ≤ clock)
    (hacts : Along (step proto appCfg) (InTime proto) (State.start config clock) acts) :
    ((after proto appCfg config clock acts).exits.filterMap Exit.marker).Pairwise (· > ·) := by
  have hstart : Timely proto (State.start config clock) := by
    refine ⟨h0,?_,?_,List.Pairwise.nil⟩
    · intro m hm
      cases hm
    · intro started _ m hm
      cases hm
  have hrun : Timely proto (run (step proto appCfg) (State.start config clock) acts) :=
    hacts.invariant (fun _ _ hs ha => hs.step ha) hstart
  exact hrun.order

/-- Two restarts that are asked for, and a turn of the watcher in between that serves none. -/
def twoRestarts : List (Int × Act) :=
  [(100,.boot),(100,.wait true true),(105,.restart),(110,.poll ⟨[],false,true⟩),(111,.boot),
    (111,.wait true true),(121,.poll ⟨[],false,true⟩),(125,.restart),(131,.poll ⟨[],false,true⟩)]

theorem gate_restart_once_twice :
    (after (octets "scep") false [] 100 twoRestarts).exits.filterMap Exit.marker=[125,105] ∧
    ((after (octets "scep") false [] 100 twoRestarts).exits.filterMap Exit.marker).Pairwise
      (· > ·) := by
  exact ⟨by decide +kernel,gate_restart_once (fun m hm => by cases hm) (by decide +kernel)⟩

end Once

end FastPki.Service
