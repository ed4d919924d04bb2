import Anymount.Cfapi
import Anymount.Cfapi.SyncRoot
import Anymount.Library.Ownership

/-!
# Callbacks and the context they borrow

The platform calls back on its own threads, at any time while a sync root is connected, and
hands each callback the address of the context that the root was connected with. Nothing but
the order of the teardown keeps the context alive for as long as a callback uses it.
-/
namespace Anymount.Cfapi.Callbacks

open Library Library.Prog Library.Interleave Library.Ownership SyncRoot

/-! ## A callback -/

/-- The platform begins a callback, handing over the context of the connection, and takes
notice of its end. -/
inductive CallbackCall where
  | enter (connection : ConnectionKey)
  | leave
  deriving DecidableEq, Repr

def CallbackCall.Answer : CallbackCall → Type
  | enter _ => Context
  | leave => Unit

abbrev CallbackSig : Signature := ⟨CallbackCall, CallbackCall.Answer⟩

variable {T : Signature}

/-- Mounts, and callbacks that make the calls of `T`. -/
abbrev Sig (T : Signature) : Signature := SyncSig.sum (CallbackSig.sum T)

/-- `catch_unwind`, with the outcome ignored. -/
def catchUnwind {S : Signature} : Prog S Unit → Prog S Unit
  | .ret _ => .ret ()
  | .halt .panic => .ret ()
  | .halt .fuel => .halt .fuel
  | .call c next => .call c fun r => catchUnwind (next r)

/-- A callback: its body uses the context between `enter` and `leave`. -/
def callback (connection : ConnectionKey) (body : Context → Prog T Unit) : Prog (Sig T) Unit := do
  let context : Context ← perform (S := Sig T) (.inr (.inl (.enter connection)))
  ((catchUnwind (body context)).inr (S := CallbackSig)).inr (S := SyncSig)
  let _ : Unit ← perform (S := Sig T) (.inr (.inl .leave))
  pure ()

/-- Any mounts are made and given up, and the platform calls back as often as it likes. -/
def Jobs (T : Signature) (p : Prog (Sig T) Unit) : Prop :=
  (∃ builder how, p = (lifetime backend builder how).inl >>= fun _ => .ret ()) ∨
    ∃ connection body, p = callback connection body

/-! ## What the platform promises -/

/-- What is out: allocated contexts, and connections, each with its context. -/
inductive Resource where
  | context (context : Context)
  | connection (connection : ConnectionKey)
  deriving DecidableEq, Repr

/-- What a call and its answer mean for what is out. -/
def effect : Meaning (Sig T) Resource (Option Context)
  | .inl (.inr .allocate), r => .opened (.context r) none
  | .inl (.inr (.deallocate context)), _ => .closed (.context context)
  | .inl (.inr (.connectSyncRoot _ context)), r => match (r : WinResult ConnectionKey) with
    | .ok key => .opened (.connection key) (some context)
    | .error _ => .other
  | .inl (.inr (.disconnectSyncRoot key)), r => match (r : WinResult Unit) with
    | .ok () => .closed (.connection key)
    | .error _ => .other
  | _, _ => .other

def Allocated (log : List (Event (Sig T))) (context : Context) : Prop :=
  table effect log (.context context) = some none

def Connected (log : List (Event (Sig T))) (key : ConnectionKey) (context : Context) : Prop :=
  table effect log (.connection key) = some (some context)

/-- The callback that a history ends in the middle of. -/
def next (current : Option (ConnectionKey × Context)) :
    (c : (Sig T).Call) → (Sig T).Answer c → Option (ConnectionKey × Context)
  | .inr (.inl (.enter key)), r => some (key, r)
  | .inr (.inl .leave), _ => none
  | _, _ => current

def current (es : List (Event (Sig T))) : Option (ConnectionKey × Context) :=
  es.foldl (fun current e => next current e.call e.answer) none

/-- What may be answered. An allocation has an address of its own, and a connection a key of its
own; a callback begins on a connection that is there and is handed its context; and once
disconnecting has succeeded no callback on the connection is still under way. -/
def Allowed (log : List (Event (Sig T))) : (c : (Sig T).Call) → (Sig T).Answer c → Prop
  | .inl (.inr .allocate), r => table effect log (.context r) = none
  | .inl (.inr (.connectSyncRoot _ _)), r => match (r : WinResult ConnectionKey) with
    | .ok key => table effect log (.connection key) = none
    | .error _ => True
  | .inl (.inr (.disconnectSyncRoot key)), r => match (r : WinResult Unit) with
    | .ok () => ∀ i context, current (own i log) ≠ some (key, context)
    | .error _ => True
  | .inr (.inl (.enter key)), r => Connected log key r
  | _, _ => True

/-- The connection could not be taken down. -/
def disconnectFailed (key : ConnectionKey) (e : Event (Sig T)) : Bool :=
  match e with
  | ⟨_, .inl (.inr (.disconnectSyncRoot key')), r⟩ => match (r : WinResult Unit) with
    | .ok () => false
    | .error _ => decide (key' = key)
  | _ => false

/-! ## What a mount holds -/

/-- A mount makes no other calls than those that are watched. -/
def watchMount (builder : MountBuilder) : Monitor (Sig T) Held
  | h, .inl c, r => watch builder h c r
  | _, .inr _, _ => none

/-- What is out, as far as one mount holds it. -/
def holds (h : Held) : Table Resource (Option Context)
  | .context context => if h.context = some context then some none else none
  | .connection key => match h.connection with
    | some (key', context) => if key' = key then some (some context) else none
    | none => none

/-- What is left alone keeps what is held. -/
theorem holds_congr {h h' : Held} (hcontext : h'.context = h.context)
    (hconnection : h'.connection = h.connection) : holds h' = holds h := by
  funext resource
  cases resource with
  | context context => rw [holds, holds, hcontext]
  | connection key => rw [holds, holds, hconnection]

theorem holds_start : holds .start = .empty := by
  funext resource
  cases resource with
  | context context => rfl
  | connection key => rfl

theorem connection_of_holds {h : Held} {key : ConnectionKey} {context : Context}
    (hholds : holds h (.connection key) = some (some context)) :
    h.connection = some (key, context) := by
  rcases hconnection : h.connection with _ | ⟨key', context'⟩
  · simp [holds, hconnection] at hholds
  · simp only [holds, hconnection] at hholds
    split at hholds
    · next hkey =>
      obtain rfl := Option.some.inj (Option.some.inj hholds)
      rw [hkey]
    · cases hholds

section Steps

variable {builder : MountBuilder} {h h' : Held}

theorem of_allow {P : Prop} [Decidable P] (hstep : allow P h = some h') : P ∧ h' = h := by
  unfold allow at hstep
  split at hstep
  · next hP => exact ⟨hP, (Option.some.inj hstep).symm⟩
  · cases hstep

/-- The shared checks leave everything else alone. -/
theorem of_check {c : Nfs.OsCall} {r : c.Answer} (hstep : watch builder h (.inl c) r = some h') :
    ∃ empty, h' = { h with empty := empty } := by
  cases c with
  | metadata site =>
    cases site with
    | checkMountpoint => exact ⟨h.empty, (Option.some.inj hstep).symm⟩
    | _ => cases hstep
  | readDir => exact ⟨_, (Option.some.inj hstep).symm⟩
  | _ => cases hstep

theorem holds_allocate {context : Context} (hnone : h.context = none) :
    holds { h with context := some context } =
      (holds h).after (.opened (.context context) none) := by
  funext resource
  cases resource with
  | context context' =>
    by_cases hsame : context' = context
    · subst hsame
      simp [holds, Table.after]
    · simp [holds, Table.after, hnone, hsame, Ne.symm hsame]
  | connection key => simp [holds, Table.after]

theorem holds_deallocate {context : Context} (hsome : h.context = some context) :
    holds { h with context := none } = (holds h).after (.closed (.context context)) := by
  funext resource
  cases resource with
  | context context' =>
    by_cases hsame : context' = context
    · subst hsame
      simp [holds, Table.after]
    · simp [holds, Table.after, hsome, hsame, Ne.symm hsame]
  | connection key => simp [holds, Table.after]

theorem holds_connect {key : ConnectionKey} {context : Context} (hnone : h.connection = none) :
    holds { h with connection := some (key, context) } =
      (holds h).after (.opened (.connection key) (some context)) := by
  funext resource
  cases resource with
  | context context' => simp [holds, Table.after]
  | connection key' =>
    by_cases hsame : key' = key
    · subst hsame
      simp [holds, Table.after]
    · simp [holds, Table.after, hnone, hsame, Ne.symm hsame]

theorem holds_disconnect {key : ConnectionKey} {answered : Option (WinResult Unit)}
    (hsome : h.connection.map Prod.fst = some key) :
    holds { h with connection := none, disconnected := answered } =
      (holds h).after (.closed (.connection key)) := by
  obtain ⟨⟨key, context⟩, hconnection, rfl⟩ := Option.map_eq_some_iff.mp hsome
  funext resource
  cases resource with
  | context context' => simp [holds, Table.after]
  | connection key' =>
    by_cases hsame : key' = key
    · subst hsame
      simp [holds, Table.after]
    · simp [holds, Table.after, hconnection, hsame, Ne.symm hsame]

/-- What the monitor knows to be held follows the calls. -/
theorem holds_step {c : (Sig T).Call} {r : (Sig T).Answer c}
    (hstep : watchMount builder h c r = some h') : holds h' = (holds h).after (effect c r) := by
  rcases c with (c | c) | c
  · obtain ⟨empty, rfl⟩ := of_check hstep
    exact holds_congr rfl rfl
  · cases c with
    | allocate =>
      obtain ⟨⟨-, -, hnone⟩, rfl⟩ := of_allow hstep
      exact holds_allocate hnone
    | deallocate context =>
      obtain ⟨⟨hsome, -⟩, rfl⟩ := of_allow hstep
      exact holds_deallocate hsome
    | connectSyncRoot path context =>
      obtain ⟨⟨-, -, -, -, hnone, -⟩, rfl⟩ := of_allow hstep
      cases r with
      | ok key => exact holds_connect hnone
      | error e => exact holds_congr rfl rfl
    | disconnectSyncRoot key =>
      obtain ⟨⟨hsome, -, -⟩, rfl⟩ := of_allow hstep
      cases r with
      | ok _ => exact holds_disconnect hsome
      | error e => exact holds_congr rfl rfl
    | getPlatformInfo =>
      obtain rfl := Option.some.inj hstep
      rfl
    | registerSyncRoot path registration =>
      obtain ⟨-, rfl⟩ := of_allow hstep
      cases r with
      | ok _ => exact holds_congr rfl rfl
      | error e => rfl
    | unregisterSyncRoot path | readDir path | readonly path | setReadonly path readonly
    | removeDirAll path | removeFile path =>
      obtain ⟨-, rfl⟩ := of_allow hstep
      exact holds_congr rfl rfl
  · cases hstep

/-- What is given back was held. -/
theorem holds_of_closed {c : (Sig T).Call} {r : (Sig T).Answer c} {resource : Resource}
    (hstep : watchMount builder h c r = some h') (hclosed : effect c r = .closed resource) :
    holds h resource ≠ none := by
  rcases c with (c | c) | c
  · cases hclosed
  · cases c with
    | deallocate context =>
      obtain ⟨⟨hsome, -⟩, -⟩ := of_allow hstep
      cases hclosed
      simp [holds, hsome]
    | disconnectSyncRoot key =>
      obtain ⟨⟨hsome, -, -⟩, -⟩ := of_allow hstep
      obtain ⟨⟨key, context⟩, hconnection, rfl⟩ := Option.map_eq_some_iff.mp hsome
      cases r with
      | ok _ =>
        cases hclosed
        simp [holds, hconnection]
      | error e => cases hclosed
    | connectSyncRoot path context =>
      cases r with
      | ok _ => cases hclosed
      | error e => cases hclosed
    | _ => cases hclosed
  · cases hstep

/-- While no disconnect has failed, what is connected has its context, and the registration has
not been asked to go. -/
structure Sound (h : Held) : Prop where
  connected : ∀ key context, h.connection = some (key, context) → h.disconnected = none →
    h.context = some context ∧ h.unregistered = none
  disconnected : h.disconnected = some (.ok ()) → h.connection = none

theorem sound_start : Sound .start := ⟨nofun, nofun⟩

theorem Sound.step {c : (Sig T).Call} {r : (Sig T).Answer c} (hsound : Sound h)
    (hstep : watchMount builder h c r = some h') : Sound h' := by
  rcases c with (c | c) | c
  · obtain ⟨empty, rfl⟩ := of_check hstep
    exact ⟨hsound.connected, hsound.disconnected⟩
  · cases c with
    | allocate =>
      obtain ⟨⟨-, -, hnone⟩, rfl⟩ := of_allow hstep
      refine ⟨fun key context hconnection hstill => ?_, hsound.disconnected⟩
      have hcontext := (hsound.connected key context hconnection hstill).1
      rw [hnone] at hcontext
      cases hcontext
    | deallocate context =>
      obtain ⟨⟨-, hgone⟩, rfl⟩ := of_allow hstep
      refine ⟨fun key context hconnection hstill => ?_, hsound.disconnected⟩
      exact absurd (hsound.connected key context hconnection hstill).2 hgone
    | connectSyncRoot path context =>
      obtain ⟨⟨-, hregistered, -, hcontext, hnone, hnever⟩, rfl⟩ := of_allow hstep
      cases r with
      | ok key =>
        refine ⟨?_, fun h => ?_⟩
        · rintro _ _ ⟨⟩ -
          exact ⟨hcontext, hregistered⟩
        · exact absurd (hnever.symm.trans h) nofun
      | error e => exact hsound
    | disconnectSyncRoot key =>
      obtain ⟨-, rfl⟩ := of_allow hstep
      cases r with
      | ok _ => exact ⟨nofun, fun _ => rfl⟩
      | error e => exact ⟨fun _ _ _ h => absurd h nofun, nofun⟩
    | unregisterSyncRoot path =>
      obtain ⟨⟨-, -, hasked, -⟩, rfl⟩ := of_allow hstep
      refine ⟨fun key context hconnection hstill => ?_, hsound.disconnected⟩
      refine absurd hstill (hasked ?_)
      rw [show h.connection = some (key, context) from hconnection]
      exact Option.some_ne_none _
    | getPlatformInfo =>
      obtain rfl := Option.some.inj hstep
      exact hsound
    | registerSyncRoot path registration =>
      obtain ⟨-, rfl⟩ := of_allow hstep
      cases r with
      | ok _ => exact ⟨hsound.connected, hsound.disconnected⟩
      | error e => exact hsound
    | readDir path | readonly path | setReadonly path readonly | removeDirAll path
    | removeFile path =>
      obtain ⟨-, rfl⟩ := of_allow hstep
      exact ⟨hsound.connected, hsound.disconnected⟩
  · cases hstep

/-- The monitor knows of a failed disconnect only when there was one. -/
theorem failed_step {c : (Sig T).Call} {r : (Sig T).Answer c} {key : ConnectionKey} {e : WinError}
    {i : Nat} (hstep : watchMount builder h c r = some h')
    (hkey : h'.connection.map Prod.fst = some key) (hfailed : h'.disconnected = some (.error e)) :
    (h.connection.map Prod.fst = some key ∧ h.disconnected = some (.error e)) ∨
      disconnectFailed key ⟨i, c, r⟩ = true := by
  rcases c with (c | c) | c
  · obtain ⟨empty, rfl⟩ := of_check hstep
    exact .inl ⟨hkey, hfailed⟩
  · cases c with
    | disconnectSyncRoot key' =>
      obtain ⟨⟨hsome, -, -⟩, rfl⟩ := of_allow hstep
      cases r with
      | ok _ => cases hkey
      | error e' => exact .inr (decide_eq_true (Option.some.inj (hsome.symm.trans hkey)))
    | connectSyncRoot path context =>
      obtain ⟨⟨-, -, -, -, -, hnever⟩, rfl⟩ := of_allow hstep
      cases r with
      | ok key => exact absurd (hnever.symm.trans hfailed) nofun
      | error e => exact .inl ⟨hkey, hfailed⟩
    | getPlatformInfo =>
      obtain rfl := Option.some.inj hstep
      exact .inl ⟨hkey, hfailed⟩
    | registerSyncRoot path registration =>
      obtain ⟨-, rfl⟩ := of_allow hstep
      cases r with
      | ok _ => exact .inl ⟨hkey, hfailed⟩
      | error e => exact .inl ⟨hkey, hfailed⟩
    | allocate | deallocate context | unregisterSyncRoot path | readDir path | readonly path
    | setReadonly path readonly | removeDirAll path | removeFile path =>
      obtain ⟨-, rfl⟩ := of_allow hstep
      exact .inl ⟨hkey, hfailed⟩
  · cases hstep

end Steps

/-- What holds of a mount after any history that the monitor accepts. -/
theorem sound_of_run {builder : MountBuilder} {es : List (Event (Sig T))} {h : Held}
    (hrun : (watchMount builder).run .start es = some h) :
    Sound h ∧ ∀ key e, h.connection.map Prod.fst = some key → h.disconnected = some (.error e) →
      ∃ e ∈ es, disconnectFailed key e = true := by
  induction es using List.reverseRecOn generalizing h with
  | nil =>
    obtain rfl : Held.start = h := Option.some.inj hrun
    exact ⟨sound_start, nofun⟩
  | append_singleton es e ih =>
    rw [Monitor.run_append] at hrun
    obtain ⟨h', hes, he⟩ := Option.bind_eq_some_iff.mp hrun
    have hlast : watchMount builder h' e.call e.answer = some h := by simpa [Monitor.run] using he
    obtain ⟨hsound, hcalm⟩ := ih hes
    refine ⟨hsound.step hlast, fun key error hkey hfailed => ?_⟩
    obtain ⟨hkey', hbefore⟩ | hnow := failed_step (i := e.who) hlast hkey hfailed
    · obtain ⟨e', he', hfailing⟩ := hcalm key error hkey' hbefore
      exact ⟨e', List.mem_append_left _ he', hfailing⟩
    · exact ⟨e, by simp, hnow⟩

/-! ## What a callback does -/

inductive Stage where
  | waiting
  | inside (connection : ConnectionKey) (context : Context)
  | finished

def Stage.current : Stage → Option (ConnectionKey × Context)
  | .inside connection context => some (connection, context)
  | _ => none

/-- Calls of the body are made inside. -/
def watchCallback : Monitor (Sig T) Stage
  | .waiting, .inr (.inl (.enter connection)), r => some (.inside connection r)
  | .inside connection context, .inr (.inr _), _ => some (.inside connection context)
  | .inside _ _, .inr (.inl .leave), _ => some .finished
  | _, _, _ => none

section Callback

variable {connection : ConnectionKey} {context : Context}

/-- The only way not to come back is to loop. -/
theorem obeys_body (p : Prog T Unit) :
    Obeys watchCallback (· = .fuel) (fun s _ => s = .inside connection context)
      (.inside connection context)
      (((catchUnwind p).inr (S := CallbackSig)).inr (S := SyncSig)) := by
  induction p with
  | ret a => exact rfl
  | halt why =>
    cases why with
    | panic => exact rfl
    | fuel => exact rfl
  | call c next ih => exact fun r => ⟨_, rfl, ih r⟩

theorem obeys_callback (body : Context → Prog T Unit) :
    Obeys watchCallback (· = .fuel) (fun s _ => s = .finished) .waiting
      (callback connection body) := by
  intro context
  refine ⟨.inside connection context, rfl, ?_⟩
  apply (obeys_bind (((catchUnwind (body context)).inr (S := CallbackSig)).inr (S := SyncSig))
    _).mpr
  refine obeys_mono (obeys_body (body context)) ?_
  rintro _ _ rfl
  exact fun _ => ⟨.finished, rfl, rfl⟩

theorem current_step {s s' : Stage} {c : (Sig T).Call} {r : (Sig T).Answer c}
    (hstep : watchCallback s c r = some s') : next s.current c r = s'.current := by
  unfold watchCallback at hstep
  split at hstep
  · obtain rfl := Option.some.inj hstep
    rfl
  · obtain rfl := Option.some.inj hstep
    rfl
  · obtain rfl := Option.some.inj hstep
    rfl
  · cases hstep

theorem current_of_run {es : List (Event (Sig T))} {s : Stage}
    (hrun : watchCallback.run .waiting es = some s) : current es = s.current := by
  induction es using List.reverseRecOn generalizing s with
  | nil =>
    obtain rfl : Stage.waiting = s := Option.some.inj hrun
    rfl
  | append_singleton es e ih =>
    rw [Monitor.run_append] at hrun
    obtain ⟨s', hes, he⟩ := Option.bind_eq_some_iff.mp hrun
    have hlast : watchCallback s' e.call e.answer = some s := by simpa [Monitor.run] using he
    rw [current, List.foldl_append, ← current, ih hes]
    exact current_step hlast

/-- A callback does not touch what mounts hold. -/
theorem effect_of_callback {s s' : Stage} {c : (Sig T).Call} {r : (Sig T).Answer c}
    (hstep : watchCallback s c r = some s') : effect c r = .other := by
  unfold watchCallback at hstep
  split at hstep
  · rfl
  · rfl
  · rfl
  · cases hstep

end Callback

/-! ## The context is there -/

section Outlives

variable {w : World (Sig T) Unit}

/-- Each program is watched: a mount by its monitor, a callback by the other. -/
def Watched (es : List (Event (Sig T))) (p : Prog (Sig T) Unit) : Prop :=
  (∃ builder, Tracked (watchMount builder) (fun _ => False) (fun _ _ => True) .start es p) ∨
    Tracked watchCallback (· = .fuel) (fun _ _ => True) .waiting es p

theorem obeys_mount (builder : MountBuilder) (how : GivenUp) :
    Obeys (watchMount builder) (fun _ => False) (fun _ _ => True) .start
      ((lifetime backend builder how).inl (T := CallbackSig.sum T) >>= fun _ => .ret ()) := by
  apply (obeys_bind ((lifetime backend builder how).inl (T := CallbackSig.sum T)) _).mpr
  have hlife : Obeys (watchMount (T := T) builder).left (fun _ => False) _ _ _ :=
    obeys_lifetime_backend builder how
  exact obeys_mono ((obeys_inl _).mpr hlife) fun _ _ _ => trivial

theorem reachable_watched (h : Reachable (Jobs T) Allowed w) (i : Nat) (p : Prog (Sig T) Unit)
    (hp : w.jobs[i]? = some p) : Watched (own i w.log) p := by
  refine reachable_own ?_ ?_ h i p hp
  · rintro _ (⟨builder, how, rfl⟩ | ⟨connection, body, rfl⟩)
    · exact .inl ⟨builder, .start, rfl, obeys_mount builder how⟩
    · exact .inr ⟨.waiting, rfl, obeys_mono (obeys_callback body) fun _ _ _ => trivial⟩
  · rintro es j c next r (⟨builder, htracked⟩ | htracked)
    · exact .inl ⟨builder, htracked.answer j r⟩
    · exact .inr (htracked.answer j r)

theorem fresh_of_opened {log : List (Event (Sig T))} {c : (Sig T).Call} {r : (Sig T).Answer c}
    {resource : Resource} {k : Option Context} (hallowed : Allowed log c r)
    (hopened : effect c r = .opened resource k) : table effect log resource = none := by
  rcases c with (c | c) | c
  · cases hopened
  · cases c with
    | allocate =>
      cases hopened
      exact hallowed
    | connectSyncRoot path context =>
      cases r with
      | ok key =>
        cases hopened
        exact hallowed
      | error e => cases hopened
    | disconnectSyncRoot key =>
      cases r with
      | ok _ => cases hopened
      | error e => cases hopened
    | _ => cases hopened
  · cases hopened

theorem quiet_of_closed {log : List (Event (Sig T))} {c : (Sig T).Call} {r : (Sig T).Answer c}
    {key : ConnectionKey} (hallowed : Allowed log c r)
    (hclosed : effect c r = .closed (.connection key)) (i : Nat) (context : Context) :
    current (own i log) ≠ some (key, context) := by
  rcases c with (c | c) | c
  · cases hclosed
  · cases c with
    | connectSyncRoot path context =>
      cases r with
      | ok key => cases hclosed
      | error e => cases hclosed
    | disconnectSyncRoot key =>
      cases r with
      | ok _ =>
        cases hclosed
        exact hallowed i context
      | error e => cases hclosed
    | _ => cases hclosed
  · cases hclosed

/-- A connection stays while a callback on it is under way. -/
theorem connected_snoc {log : List (Event (Sig T))} {j : Nat} {c : (Sig T).Call}
    {r : (Sig T).Answer c} {i : Nat} {key : ConnectionKey} {context : Context}
    (hallowed : Allowed log c r) (hcurrent : current (own i log) = some (key, context))
    (hconnected : Connected log key context) :
    Connected (log ++ [⟨j, c, r⟩]) key context := by
  rw [Connected, table_snoc, Table.after_of_ne]
  · exact hconnected
  · intro k hopened
    have hnone := fresh_of_opened hallowed hopened
    rw [Connected, hnone] at hconnected
    cases hconnected
  · intro hclosed
    exact quiet_of_closed hallowed hclosed i context hcurrent

/-- A callback is under way after its own call: it was before, or it has just been let in. -/
theorem next_cases {cur : Option (ConnectionKey × Context)} {log : List (Event (Sig T))}
    {c : (Sig T).Call} {r : (Sig T).Answer c} {key : ConnectionKey} {context : Context}
    (hallowed : Allowed log c r) (hnext : next cur c r = some (key, context)) :
    cur = some (key, context) ∨ (Connected log key context ∧ effect c r = .other) := by
  rcases c with (c | c) | c | c
  · exact .inl hnext
  · exact .inl hnext
  · cases c with
    | enter key' =>
      obtain ⟨rfl, rfl⟩ := Prod.mk.inj (Option.some.inj hnext)
      exact .inr ⟨hallowed, rfl⟩
    | leave => cases hnext
  · exact .inl hnext

/-- A callback under way is on a connection that is there, with its context. -/
theorem connected_of_current (h : Reachable (Jobs T) Allowed w) :
    ∀ i key context, current (own i w.log) = some (key, context) →
      Connected w.log key context := by
  refine reachable_log (J := fun log => ∀ i key context,
    current (own i log) = some (key, context) → Connected log key context) nofun ?_ h
  intro log j c r hlog hallowed i key context hcurrent
  rw [own_append] at hcurrent
  by_cases hij : j = i
  · subst hij
    rw [own_single, current, List.foldl_append, ← current] at hcurrent
    rcases next_cases hallowed hcurrent with hbefore | ⟨hconnected, hother⟩
    · exact connected_snoc hallowed hbefore (hlog j key context hbefore)
    · rw [Connected, table_snoc, hother]
      exact hconnected
  · rw [own_single_of_ne hij, List.append_nil] at hcurrent
    exact connected_snoc hallowed hcurrent (hlog i key context hcurrent)

theorem owned_of_jobs {p : Prog (Sig T) Unit} (hp : Jobs T p) :
    Owned effect (fun _ _ _ => True) (fun _ => True) (fun _ _ _ => True) .empty [] p := by
  obtain ⟨builder, how, rfl⟩ | ⟨connection, body, rfl⟩ := hp
  · rw [← holds_start]
    exact owned_of_obeys holds (fun _ _ => trivial) (fun _ _ _ _ hstep => holds_step hstep)
      (fun _ _ _ _ _ hstep hclosed => holds_of_closed hstep hclosed) (obeys_mount builder how) []
  · refine owned_of_obeys (fun _ => .empty) (fun _ _ => trivial) ?_ ?_
      (obeys_callback body) []
    · intro s c r s' hstep
      rw [effect_of_callback hstep]
      rfl
    · intro s c r s' resource hstep hclosed
      rw [effect_of_callback hstep] at hclosed
      cases hclosed

/-- A mount that holds a connection holds its context too, unless disconnecting has failed. -/
theorem holds_context {builder : MountBuilder} {es : List (Event (Sig T))} {h : Held}
    (hrun : (watchMount builder).run .start es = some h) {key : ConnectionKey}
    (hcalm : ∀ e ∈ es, disconnectFailed key e = false) {context : Context}
    (hconnected : Connected es key context) : Allocated es context := by
  obtain ⟨hsound, hfailed⟩ := sound_of_run hrun
  have hown : table effect es = holds h :=
    table_of_run holds holds_start (fun _ _ _ _ hstep => holds_step hstep) hrun
  rw [Connected, hown] at hconnected
  have hconnection := connection_of_holds hconnected
  have hstill : h.disconnected = none := by
    rcases hdisconnected : h.disconnected with _ | e | _
    · rfl
    · obtain ⟨e', he', hfailing⟩ := hfailed key e (by rw [hconnection]; rfl) hdisconnected
      rw [hcalm e' he'] at hfailing
      cases hfailing
    · rw [hsound.disconnected hdisconnected] at hconnection
      cases hconnection
  rw [Allocated, hown, holds, if_pos (hsound.connected key context hconnection hstill).1]

/-- A connection that is there has its context, unless disconnecting it has failed. -/
theorem allocated_of_connected (h : Reachable (Jobs T) Allowed w) {key : ConnectionKey}
    {context : Context} (hconnected : Connected w.log key context)
    (hcalm : ∀ e ∈ w.log, disconnectFailed key e = false) : Allocated w.log context := by
  obtain ⟨ps, hps, hrun⟩ := h.runOf
  obtain ⟨held, hw⟩ := exists_owners (fun p hp => owned_of_jobs (hps p hp))
    (fun log c r resource k hallowed hopened => fresh_of_opened hallowed hopened)
    (fun _ _ _ _ _ _ => trivial) hrun
  obtain ⟨j, hj⟩ := (hw.shared (.connection key)).accounted _ hconnected
  have hlt : j < w.jobs.length := by
    by_contra hge
    rw [hw.started j (not_lt.mp hge)] at hj
    cases hj
  apply (hw.shared (.context context)).out j none
  rw [hw.history j] at hj ⊢
  rcases reachable_watched h j _ (List.getElem?_eq_getElem hlt) with
    ⟨builder, h', hrun, -⟩ | ⟨stage, hrun, -⟩
  · exact holds_context hrun (fun e he => hcalm e (List.mem_of_mem_filter he)) hj
  · have hnothing : table effect (own j w.log) = .empty := by
      refine table_of_run (fun _ => .empty) rfl (fun s c r s' hstep => ?_) hrun
      rw [effect_of_callback hstep]
      rfl
    rw [hnothing] at hj
    cases hj

/-- The context outlives its callbacks. Any number of mounts are made and given up while the
platform calls back, in any interleaving. Whenever a callback makes a call of its own, it is
inside, on a connection that is there, and the context it was handed is still allocated,
unless disconnecting that connection has failed. -/
theorem context_outlives_callbacks (h : Reachable (Jobs T) Allowed w) {i : Nat} {c : T.Call}
    {next : T.Answer c → Prog (Sig T) Unit}
    (hjob : w.jobs[i]? = some (.call (.inr (.inr c)) next)) (r : T.Answer c) :
    ∃ key context, current (own i w.log) = some (key, context) ∧
      Connected w.log key context ∧
      ((∀ e ∈ w.log, disconnectFailed key e = false) → Allocated w.log context) := by
  rcases reachable_watched h i _ hjob with ⟨builder, held, -, hobeys⟩ | ⟨stage, hrun, hobeys⟩
  · obtain ⟨_, hnone, -⟩ := hobeys r
    cases hnone
  · obtain ⟨stage', hstep, -⟩ := hobeys r
    have hcurrent := current_of_run hrun
    cases stage with
    | inside key context =>
      have hconnected := connected_of_current h i key context hcurrent
      exact ⟨key, context, hcurrent, hconnected, allocated_of_connected h hconnected⟩
    | waiting => cases hstep
    | finished => cases hstep

end Outlives

/-- `FETCH_DATA` for the first bytes of a file. -/
def fetchFive (_ : Context) : Prog FetchSig Unit :=
  handleFetchData .wraps .w64 8 (some [2, 0, 0, 0, 0, 0, 0, 0]) 0 5

theorem context_outlives_callbacks_fetch :
    ∃ w : World (Sig FetchSig) Unit, Reachable (Jobs FetchSig) Allowed w ∧
      current (own 1 w.log) = some (⟨7⟩, ⟨4096⟩) ∧ Allocated w.log ⟨4096⟩ := by
  have h0 : Reachable (Jobs FetchSig) Allowed _ :=
    Reachable.init.step (.start (.inl ⟨folder, .unmounted, rfl⟩))
  have h1 := h0.step (.start (.inr ⟨⟨7⟩, fetchFive, rfl⟩))
  have h2 := h1.step (.answer (i := 0) (r := Except.ok ⟨true, 0, 0⟩) rfl trivial)
  have h3 := h2.step (.answer (i := 0) (r := Except.ok false) rfl trivial)
  have h4 := h3.step (.answer (i := 0) (r := Except.ok ⟨22631, 0, 0x310⟩) rfl trivial)
  have h5 := h4.step (.answer (i := 0) (r := Except.ok ()) rfl trivial)
  have h6 := h5.step (.answer (i := 0) (r := (⟨4096⟩ : Context)) rfl (by rfl))
  have h7 := h6.step (.answer (i := 0) (r := Except.ok ⟨7⟩) rfl (by rfl))
  have h8 := h7.step (.answer (i := 1) (r := (⟨4096⟩ : Context)) rfl (by rfl))
  obtain ⟨key, context, hcurrent, -, hallocated⟩ :=
    context_outlives_callbacks h8 (i := 1) rfl (Except.ok ⟨0⟩)
  obtain ⟨rfl, rfl⟩ := Prod.mk.inj (Option.some.inj hcurrent)
  refine ⟨_, h8, hcurrent, hallocated ?_⟩
  simp [disconnectFailed]

end Anymount.Cfapi.Callbacks
