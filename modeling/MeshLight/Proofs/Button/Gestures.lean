import MeshLight.Proofs.Button.LongPress

/-!
# MeshLight.Proofs.Button.Gestures

What is reported for presses that come one after the other, each followed by its release and a look
(`Orderly`). Then the driver has dealt with all earlier edges when the next press comes, and where
it stands follows from the latest edges (`Stands`). So it reports exactly what is due: a press as
long at the first look that finds it three seconds old, and one of less than 300 ms as short at the
first look after its release (`Key.reports_iff_due`).
-/

namespace MeshLight

/-! ## orderly histories -/

namespace Touch

def time : Touch → Nat
  | .press time => time
  | .release time => time
  | .look now => now

def isEdge : Touch → Bool
  | .look _ => false
  | _ => true

end Touch

/-- The latest edge, a press or a release. -/
def latestEdge? (touches : List Touch) : Option Touch := touches.reverse.find? Touch.isEdge

theorem latestEdge?_concat (touches : List Touch) (t : Touch) :
    latestEdge? (touches ++ [t]) = if t.isEdge then some t else latestEdge? touches := by
  unfold latestEdge?
  rw [List.reverse_concat, List.find?_cons]
  cases t.isEdge <;> rfl

theorem latestEdge?_of_edge {e : Touch} (touches : List Touch) (he : e.isEdge = true) :
    latestEdge? (touches ++ [e]) = some e := by
  rw [latestEdge?_concat, if_pos he]

/-- Looks leave the latest edge as it is. -/
theorem latestEdge?_append_looks (touches : List Touch) (looks : List Nat) :
    latestEdge? (touches ++ looks.map .look) = latestEdge? touches := by
  induction looks using List.reverseRecOn with
  | nil => rw [List.map_nil, List.append_nil]
  | append_singleton looks now ih =>
      rw [List.map_append, ← List.append_assoc, List.map_singleton, latestEdge?_concat, ih]
      rfl

theorem latestEdge?_looks {earlier : List Touch} {e : Touch} {looks : List Nat}
    (he : e.isEdge = true) : latestEdge? (earlier ++ e :: looks.map .look) = some e := by
  rw [List.append_cons, latestEdge?_append_looks, latestEdge?_of_edge _ he]

/-- Touches end in the latest edge and the looks since. -/
theorem looks_unique {earlier earlier' : List Touch} {e e' : Touch} {looks looks' : List Nat}
    (he : e.isEdge = true) (he' : e'.isEdge = true)
    (h : earlier ++ e :: looks.map .look = earlier' ++ e' :: looks'.map .look) :
    e = e' ∧ looks = looks' := by
  have hsince {earlier : List Touch} {e : Touch} {looks : List Nat} (he : e.isEdge = true) :
      (earlier ++ e :: looks.map .look).reverse.takeWhile (!·.isEdge) =
        (looks.map .look).reverse := by
    have hlook : ∀ t ∈ (looks.map Touch.look).reverse, (!t.isEdge) = true := by
      simp [Touch.isEdge]
    rw [List.reverse_append, List.reverse_cons, List.append_assoc,
      List.takeWhile_append_of_pos hlook]
    simp [he]
  constructor
  · have hlatest := congrArg latestEdge? h
    rwa [latestEdge?_looks he, latestEdge?_looks he', Option.some_inj] at hlatest
  · have hlooks := congrArg (fun ts => ts.reverse.takeWhile (!·.isEdge)) h
    simp only [hsince he, hsince he', List.reverse_inj] at hlooks
    exact (List.map_inj_right fun _ _ => Touch.look.inj).1 hlooks

/-- A time that is no earlier than the touches so far, and less than half of the clock's range after
the latest edge. -/
structure Follows (touches : List Touch) (time : Nat) : Prop where
  later : ∀ t ∈ touches, t.time ≤ time
  near : ∀ e ∈ latestEdge? touches, time < e.time + (2 ^ 31 - 1)

/-- Presses and releases in turn, a press first, each later than the edge before it and none where
the clock shows zero. Between a release and the next press the driver looks at least once. -/
inductive Orderly : List Touch → Prop where
  | nil : Orderly []
  | look {touches : List Touch} {now : Nat} (h : Orderly touches) (hfollows : Follows touches now) :
      Orderly (touches ++ [.look now])
  | press {touches : List Touch} {time : Nat} (h : Orderly touches)
      (hfollows : Follows touches time) (hclock : time % 2 ^ 32 ≠ 0)
      (hedge : ∀ e ∈ latestEdge? touches, ∃ r < time, e = .release r)
      (hlooked : ∀ t ∈ touches.getLast?, t.isEdge = false) :
      Orderly (touches ++ [.press time])
  | release {touches : List Touch} {time : Nat} (h : Orderly touches)
      (hfollows : Follows touches time) (hclock : time % 2 ^ 32 ≠ 0)
      (hedge : ∃ p < time, latestEdge? touches = some (.press p)) :
      Orderly (touches ++ [.release time])

namespace Orderly

/-- The last touch of an orderly history follows an orderly history. -/
theorem of_concat {touches : List Touch} {t : Touch} (h : Orderly (touches ++ [t])) :
    Orderly touches ∧ Follows touches t.time := by
  generalize htouches : touches ++ [t] = all at h
  cases h with
  | nil => simp at htouches
  | look h hfollows | press h hfollows | release h hfollows =>
      obtain ⟨rfl, hlast⟩ := List.append_inj' htouches rfl
      cases hlast
      exact ⟨h, hfollows⟩

/-- So does each touch. -/
theorem of_append {before after : List Touch} (h : Orderly (before ++ after)) :
    Orderly before := by
  induction after using List.reverseRecOn with
  | nil => rwa [List.append_nil] at h
  | append_singleton after t ih =>
      rw [← List.append_assoc] at h
      exact ih h.of_concat.1

end Orderly

/-- The gesture that is to be reported at a look after some touches: long, if it is the first that
finds a press three seconds old which was not released before, and short, if it is the first after
the release of a press that lasted for less than 300 ms. -/
def Due (touches : List Touch) (now : Nat) : Gesture → Prop
  | .long => ∃ earlier p, ∃ looks : List Nat,
      touches = earlier ++ .press p :: looks.map .look ∧
      p + 3000 ≤ now ∧ ∀ t ∈ looks, t < p + 3000
  | .short => ∃ earlier p r, ∃ looks : List Nat,
      touches = earlier ++ .press p :: looks.map .look ++ [.release r] ∧ r < p + 300

/-! ## on the clock -/

/-- Times within one turn of the clock look different on it. -/
theorem ofNat_ne_ofNat {earlier later : Nat} (hlt : earlier < later)
    (hnear : later < earlier + 2 ^ 32) : UInt32.ofNat later ≠ UInt32.ofNat earlier := by
  intro h
  have hmod := congrArg UInt32.toNat h
  rw [UInt32.toNat_ofNat', UInt32.toNat_ofNat'] at hmod
  omega

theorem ofNat_ne_zero {time : Nat} (hclock : time % 2 ^ 32 ≠ 0) : UInt32.ofNat time ≠ 0 := by
  intro h
  have hmod := congrArg UInt32.toNat h
  rw [UInt32.toNat_ofNat'] at hmod
  exact hclock hmod

theorem recordedTime_eq {time : Nat} (hclock : time % 2 ^ 32 ≠ 0) : recordedTime time = time :=
  if_neg hclock

theorem stamp_eq {time : Nat} (hclock : time % 2 ^ 32 ≠ 0) :
    Edges.stamp (UInt32.ofNat time) = UInt32.ofNat time := by
  rw [stamp_ofNat, recordedTime_eq hclock]

/-- Nothing was recorded, or an edge of an earlier time, less than half of the clock's range ago. -/
def Precedes (stamp : UInt32) (time : Nat) : Prop :=
  stamp = 0 ∨ ∃ t < time, time < t + (2 ^ 31 - 1) ∧ stamp = UInt32.ofNat t

/-- What precedes an edge looks different from the next edge, too. -/
theorem Precedes.ne {stamp : UInt32} {time next : Nat} (h : Precedes stamp time)
    (hle : time ≤ next) (hnear : next < time + (2 ^ 31 - 1)) (hclock : next % 2 ^ 32 ≠ 0) :
    UInt32.ofNat next ≠ stamp := by
  obtain rfl | ⟨t, hlt, hlate, rfl⟩ := h
  · exact ofNat_ne_zero hclock
  · exact ofNat_ne_ofNat (by omega) (by omega)

/-! ## where the driver stands -/

namespace ButtonDriver

variable {edges : Edges} {d : ButtonDriver} {tracking : Tracking}

theorem notePress_of_eq {press : UInt32} (h : d.lastPress = press) : d.notePress press = d :=
  if_neg fun hnew => hnew.2 h.symm

theorem notePress_of_ne {press : UInt32} (hzero : press ≠ 0) (hne : press ≠ d.lastPress) :
    d.notePress press = ⟨.pressed press, press, d.lastRelease⟩ := if_pos ⟨hzero, hne⟩

theorem isNewRelease_self (tracking : Tracking) (press release : UInt32) :
    isNewRelease release ⟨tracking, press, release⟩ = false := by
  simp [isNewRelease]

/-- With no new release a driver only finds a press long. -/
theorem tick_of_pressed_old {since : UInt32} (now : UInt32)
    (h : d.notePress edges.press = ⟨.pressed since, edges.press, edges.release⟩) :
    d.tick edges now =
      if longLimit ≤ now - since then (some .long, ⟨.held, edges.press, edges.release⟩)
      else (none, ⟨.pressed since, edges.press, edges.release⟩) := by
  simp only [tick, h, isNewRelease_self]
  rfl

theorem tick_of_other_old (now : UInt32)
    (h : d.notePress edges.press = ⟨tracking, edges.press, edges.release⟩)
    (hother : ∀ since, tracking ≠ .pressed since) :
    d.tick edges now = (none, ⟨tracking, edges.press, edges.release⟩) := by
  simp only [tick, h, isNewRelease_self]
  cases tracking with
  | pressed since => exact absurd rfl (hother since)
  | idle | held => rfl

/-- A new release ends the press, which may be a short one. -/
theorem tick_of_pressed_new {since last : UInt32} (now : UInt32)
    (h : d.notePress edges.press = ⟨.pressed since, edges.press, last⟩)
    (hnew : isNewRelease edges.release ⟨.pressed since, edges.press, last⟩ = true) :
    d.tick edges now = (if edges.release - since < shortLimit then some .short else none,
      ⟨.idle, edges.press, edges.release⟩) := by
  simp only [tick, h, hnew]
  rfl

theorem tick_of_held_new {last : UInt32} (now : UInt32)
    (h : d.notePress edges.press = ⟨.held, edges.press, last⟩)
    (hnew : isNewRelease edges.release ⟨.held, edges.press, last⟩ = true) :
    d.tick edges now = (none, ⟨.idle, edges.press, edges.release⟩) := by
  simp only [tick, h, hnew]
  rfl

end ButtonDriver

/-- What the driver is waiting for after some looks at a press. -/
def trackingOf (p : Nat) (looks : List Nat) : Tracking :=
  if ∀ t ∈ looks, t < p + 3000 then .pressed (UInt32.ofNat p) else .held

/-- Where a key stands after orderly touches. At rest, it has been released or never touched, and
the driver has dealt with that. While it is down, the driver either has noted the press or will do
so at the next look. Once it is up, the driver has yet to find that. -/
inductive Stands : List Touch → Key → Prop where
  | rest {touches : List Touch} {k : Key}
      (hdriver : k.driver = ⟨.idle, k.edges.press, k.edges.release⟩)
      (hedges : k.edges = .none ∧ latestEdge? touches = none ∨
        ∃ p r, k.edges = ⟨UInt32.ofNat p, UInt32.ofNat r⟩ ∧ p < r ∧ r < p + (2 ^ 31 - 1) ∧
          latestEdge? touches = some (.release r))
      (hlooked : ∀ t ∈ touches.getLast?, t.isEdge = false) : Stands touches k
  | down {earlier : List Touch} {p : Nat} {looks : List Nat} {k : Key}
      (hclock : p % 2 ^ 32 ≠ 0) (hlater : ∀ t ∈ looks, p ≤ t)
      (hpress : k.edges.press = UInt32.ofNat p) (hrelease : Precedes k.edges.release p)
      (hdriver : k.driver.notePress k.edges.press =
        ⟨trackingOf p looks, k.edges.press, k.edges.release⟩) :
      Stands (earlier ++ .press p :: looks.map .look) k
  | up {earlier : List Touch} {p r : Nat} {looks : List Nat} {k : Key} {last : UInt32}
      (hlater : ∀ t ∈ looks, t ≤ r) (hlt : p < r) (hnear : r < p + (2 ^ 31 - 1))
      (hedges : k.edges = ⟨UInt32.ofNat p, UInt32.ofNat r⟩)
      (hdriver : k.driver.notePress k.edges.press = ⟨trackingOf p looks, k.edges.press, last⟩)
      (hnew : ButtonDriver.isNewRelease k.edges.release ⟨trackingOf p looks, k.edges.press, last⟩) :
      Stands (earlier ++ .press p :: looks.map .look ++ [.release r]) k

section

variable {p : Nat} {looks : List Nat}

theorem trackingOf_of_young (h : ∀ t ∈ looks, t < p + 3000) :
    trackingOf p looks = .pressed (UInt32.ofNat p) := if_pos h

theorem trackingOf_of_old {t : Nat} (ht : t ∈ looks) (h : p + 3000 ≤ t) :
    trackingOf p looks = .held := if_neg fun hyoung => Nat.not_lt.2 h (hyoung t ht)

end

namespace ButtonDriver

variable {edges : Edges} {d : ButtonDriver} {p r now : Nat} {looks : List Nat}

/-- A look at a key that is down. -/
theorem tick_of_down (hclock : p % 2 ^ 32 ≠ 0) (hle : p ≤ now) (hnear : now < p + (2 ^ 31 - 1))
    (hdriver : d.notePress edges.press = ⟨trackingOf p looks, edges.press, edges.release⟩) :
    d.tick edges (UInt32.ofNat now) =
      (if (∀ t ∈ looks, t < p + 3000) ∧ p + 3000 ≤ now then some .long else none,
      ⟨trackingOf p (looks ++ [now]), edges.press, edges.release⟩) := by
  by_cases hyoung : ∀ t ∈ looks, t < p + 3000
  · have hlong := Key.longLimit_le_sub_iff (show now < p + 2 ^ 31 by omega)
      (show p < now + 2 ^ 31 by omega)
    rw [recordedTime_eq hclock] at hlong
    rw [trackingOf_of_young hyoung] at hdriver
    rw [tick_of_pressed_old _ hdriver]
    obtain hnew | hold := Nat.lt_or_ge now (p + 3000)
    · have hnot : ¬(p + 3000 ≤ now ∨ now < p) := by omega
      have hall : ∀ t ∈ looks ++ [now], t < p + 3000 := by
        simpa [or_imp, forall_and] using ⟨hyoung, hnew⟩
      rw [if_neg (mt hlong.1 hnot), if_neg fun h => Nat.not_lt.2 h.2 hnew,
        trackingOf_of_young hall]
    · rw [if_pos (hlong.2 (.inl hold)), if_pos ⟨hyoung, hold⟩,
        trackingOf_of_old (List.mem_concat_self) hold]
  · obtain ⟨t, ht, hold⟩ : ∃ t ∈ looks, p + 3000 ≤ t := by
      simpa using hyoung
    rw [trackingOf_of_old ht hold] at hdriver
    rw [tick_of_other_old _ hdriver (by simp), if_neg fun h => hyoung h.1,
      trackingOf_of_old (List.mem_append_left _ ht) hold]

/-- A look at a key that is up again. -/
theorem tick_of_up {last : UInt32} (now : UInt32) (hlater : ∀ t ∈ looks, t ≤ r) (hlt : p < r)
    (hnear : r < p + (2 ^ 31 - 1)) (hrelease : edges.release = UInt32.ofNat r)
    (hdriver : d.notePress edges.press = ⟨trackingOf p looks, edges.press, last⟩)
    (hnew : isNewRelease edges.release ⟨trackingOf p looks, edges.press, last⟩ = true) :
    d.tick edges now =
      (if r < p + 300 then some .short else none, ⟨.idle, edges.press, edges.release⟩) := by
  by_cases hyoung : ∀ t ∈ looks, t < p + 3000
  · have hshort : edges.release - UInt32.ofNat p < shortLimit ↔ r < p + 300 := by
      rw [hrelease, UInt32.lt_iff_toNat_lt, toNat_ofNat_sub (by omega) (by omega),
        show shortLimit.toNat = 300 from rfl]
      omega
    rw [trackingOf_of_young hyoung] at hdriver hnew
    rw [tick_of_pressed_new now hdriver hnew]
    simp only [hshort]
  · obtain ⟨t, ht, hold⟩ : ∃ t ∈ looks, p + 3000 ≤ t := by
      simpa using hyoung
    have hlong : ¬r < p + 300 := by
      have hle := hlater t ht
      omega
    rw [trackingOf_of_old ht hold] at hdriver hnew
    rw [tick_of_held_new now hdriver hnew, if_neg hlong]

end ButtonDriver

namespace Stands

variable {touches : List Touch} {k : Key} {time now : Nat}

theorem touch_press (h : Stands touches k) (hfollows : Follows touches time)
    (hclock : time % 2 ^ 32 ≠ 0) (hedge : ∀ e ∈ latestEdge? touches, ∃ r < time, e = .release r)
    (hlooked : ∀ t ∈ touches.getLast?, t.isEdge = false) :
    Stands (touches ++ [.press time]) (k.touch (.press time)) := by
  cases h with
  | rest hdriver hedges =>
      have hpress : (k.touch (.press time)).edges.press = UInt32.ofNat time := stamp_eq hclock
      obtain ⟨hrelease, hne⟩ : Precedes k.edges.release time ∧
          UInt32.ofNat time ≠ k.edges.press := by
        obtain ⟨hnone, -⟩ | ⟨p, r, hedges, hlt, hnear, hlatest⟩ := hedges
        · rw [hnone]
          exact ⟨.inl rfl, ofNat_ne_zero hclock⟩
        · obtain ⟨r', hr, heq⟩ := hedge _ hlatest
          cases heq
          have hlate := hfollows.near _ hlatest
          rw [hedges]
          exact ⟨.inr ⟨r, hr, hlate, rfl⟩, ofNat_ne_ofNat (by omega) (by
            simp only [Touch.time] at hlate
            omega)⟩
      show Stands (touches ++ .press time :: ([] : List Nat).map .look) _
      refine .down hclock (by simp) hpress hrelease ?_
      rw [hpress]
      show k.driver.notePress (UInt32.ofNat time) = _
      rw [ButtonDriver.notePress_of_ne (ofNat_ne_zero hclock) (by rwa [hdriver]), hdriver]
      rfl
  | down =>
      obtain ⟨r, -, heq⟩ := hedge _ (latestEdge?_looks rfl)
      cases heq
  | up =>
      have hedge := hlooked _ List.getLast?_concat
      cases hedge

theorem touch_release (h : Stands touches k) (hfollows : Follows touches time)
    (hclock : time % 2 ^ 32 ≠ 0) (hedge : ∃ p < time, latestEdge? touches = some (.press p)) :
    Stands (touches ++ [.release time]) (k.touch (.release time)) := by
  obtain ⟨p', hlt, hlatest⟩ := hedge
  cases h with
  | rest _ hedges =>
      obtain ⟨-, hnone⟩ | ⟨_, _, -, -, -, hlatest'⟩ := hedges
      · rw [hnone] at hlatest
        cases hlatest
      · rw [hlatest'] at hlatest
        cases hlatest
  | @down earlier p looks _ _ _ hpress hrelease hdriver =>
      have hlatest' : latestEdge? (earlier ++ .press p :: looks.map .look) = some (.press p) :=
        latestEdge?_looks rfl
      obtain rfl : p = p' := by
        rw [hlatest'] at hlatest
        cases hlatest
        rfl
      have hnear : time < p + (2 ^ 31 - 1) := hfollows.near _ hlatest'
      have hlooks : ∀ t ∈ looks, t ≤ time := fun t ht =>
        hfollows.later (.look t) (by simp [ht])
      have hedges : (k.touch (.release time)).edges = ⟨UInt32.ofNat p, UInt32.ofNat time⟩ := by
        show Edges.mk k.edges.press (Edges.stamp (UInt32.ofNat time)) = _
        rw [hpress, stamp_eq hclock]
      refine .up hlooks hlt hnear hedges hdriver ?_
      have hne : UInt32.ofNat time ≠ k.edges.release :=
        hrelease.ne (Nat.le_of_lt hlt) hnear hclock
      have hsince : UInt32.ofNat time - UInt32.ofNat p < ButtonDriver.halfRange := by
        rw [UInt32.lt_iff_toNat_lt, toNat_ofNat_sub (by omega) (by omega),
          show ButtonDriver.halfRange.toNat = 2 ^ 31 - 1 from rfl]
        omega
      simp [hedges, ButtonDriver.isNewRelease, ofNat_ne_zero hclock, hne, hsince]
  | up =>
      rw [latestEdge?_of_edge _ rfl] at hlatest
      cases hlatest

theorem noted_of_rest (hdriver : k.driver = ⟨.idle, k.edges.press, k.edges.release⟩) :
    k.driver.notePress k.edges.press = ⟨.idle, k.edges.press, k.edges.release⟩ := by
  rw [hdriver]
  exact ButtonDriver.notePress_of_eq rfl

theorem touch_look (h : Stands touches k) (hfollows : Follows touches now) :
    Stands (touches ++ [.look now]) (k.touch (.look now)) := by
  have hlatest : latestEdge? (touches ++ [.look now]) = latestEdge? touches :=
    latestEdge?_concat touches (.look now)
  have hlast : ∀ t ∈ (touches ++ [Touch.look now]).getLast?, t.isEdge = false := by
    simp [Touch.isEdge]
  cases h with
  | rest hdriver hedges _ =>
      have htick := ButtonDriver.tick_of_other_old (UInt32.ofNat now) (noted_of_rest hdriver)
        (by simp)
      refine .rest (congrArg Prod.snd htick) ?_ hlast
      rw [hlatest]
      exact hedges
  | @down earlier p looks _ hclock hlater hpress hrelease hdriver =>
      have hle : p ≤ now := hfollows.later (.press p) (by simp)
      have hnear : now < p + (2 ^ 31 - 1) := hfollows.near _ (latestEdge?_looks rfl)
      have htick := congrArg Prod.snd (ButtonDriver.tick_of_down hclock hle hnear hdriver)
      have htouches : earlier ++ .press p :: looks.map .look ++ [.look now] =
          earlier ++ .press p :: (looks ++ [now]).map .look := by simp
      rw [htouches]
      refine .down hclock ?_ hpress hrelease ?_
      · simpa [or_imp, forall_and] using ⟨hlater, hle⟩
      · show (k.driver.tick k.edges (UInt32.ofNat now)).2.notePress k.edges.press = _
        rw [htick]
        exact ButtonDriver.notePress_of_eq rfl
  | @up earlier p r looks _ last hlater hlt hnear hedges hdriver hnew =>
      have hrelease : k.edges.release = UInt32.ofNat r := by rw [hedges]
      have htick := congrArg Prod.snd (ButtonDriver.tick_of_up (UInt32.ofNat now) hlater hlt hnear
        hrelease hdriver hnew)
      refine .rest htick (.inr ⟨p, r, hedges, hlt, hnear, ?_⟩) hlast
      rw [hlatest]
      exact latestEdge?_of_edge _ rfl

/-- The driver reports what is due. -/
theorem tick_eq_some_iff (h : Stands touches k) (hfollows : Follows touches now) (g : Gesture) :
    (k.tick (UInt32.ofNat now)).1 = some g ↔ Due touches now g := by
  show (k.driver.tick k.edges (UInt32.ofNat now)).1 = some g ↔ _
  cases h with
  | rest hdriver hedges hlooked =>
      rw [ButtonDriver.tick_of_other_old _ (noted_of_rest hdriver) (by simp)]
      refine ⟨nofun, fun hdue => ?_⟩
      cases g with
      | long =>
          obtain ⟨_, p, _, rfl, -, -⟩ := hdue
          rw [latestEdge?_looks rfl] at hedges
          obtain ⟨-, hnone⟩ | ⟨_, _, -, -, -, hrelease⟩ := hedges
          · cases hnone
          · cases hrelease
      | short =>
          obtain ⟨_, _, _, _, rfl, -⟩ := hdue
          have hedge := hlooked _ List.getLast?_concat
          cases hedge
  | @down earlier p looks _ hclock _ _ _ hdriver =>
      have hle : p ≤ now := hfollows.later (.press p) (by simp)
      have hlatest : latestEdge? (earlier ++ .press p :: looks.map .look) = some (.press p) :=
        latestEdge?_looks rfl
      rw [ButtonDriver.tick_of_down hclock hle (hfollows.near _ hlatest) hdriver]
      cases g with
      | long =>
          have hreported : (if (∀ t ∈ looks, t < p + 3000) ∧ p + 3000 ≤ now then some Gesture.long
              else none) = some .long ↔ (∀ t ∈ looks, t < p + 3000) ∧ p + 3000 ≤ now := by
            simp
          rw [hreported]
          constructor
          · intro hlong
            exact ⟨earlier, p, looks, rfl, hlong.2, hlong.1⟩
          · intro hdue
            obtain ⟨_, p', looks', htouches, hlasted, hfirst⟩ := hdue
            obtain ⟨hpress, rfl⟩ := looks_unique rfl rfl htouches
            cases hpress
            exact ⟨hfirst, hlasted⟩
      | short =>
          refine ⟨fun hreported => ?_, fun hdue => ?_⟩
          · split at hreported <;> cases hreported
          · obtain ⟨_, _, r, _, htouches, -⟩ := hdue
            rw [htouches, latestEdge?_of_edge _ rfl] at hlatest
            cases hlatest
  | @up earlier p r looks _ last hlater hlt hnear hedges hdriver hnew =>
      have hrelease : k.edges.release = UInt32.ofNat r := by rw [hedges]
      rw [ButtonDriver.tick_of_up _ hlater hlt hnear hrelease hdriver hnew]
      cases g with
      | long =>
          refine ⟨fun hreported => ?_, fun hdue => ?_⟩
          · split at hreported <;> cases hreported
          · obtain ⟨_, _, _, htouches, -, -⟩ := hdue
            have hlatest := congrArg latestEdge? htouches
            rw [latestEdge?_looks rfl, latestEdge?_of_edge _ rfl] at hlatest
            cases hlatest
      | short =>
          have hreported : (if r < p + 300 then some Gesture.short else none) = some .short ↔
              r < p + 300 := by
            simp
          rw [hreported]
          constructor
          · intro hshort
            exact ⟨earlier, p, r, looks, rfl, hshort⟩
          · intro hdue
            obtain ⟨_, p', r', looks', htouches, hshort⟩ := hdue
            obtain ⟨hbefore, hlast⟩ := List.append_inj' htouches rfl
            cases hlast
            cases (looks_unique rfl rfl hbefore).1
            exact hshort

end Stands

theorem Orderly.stands {touches : List Touch} (h : Orderly touches) (button : Button) :
    Stands touches ((Key.untouched button).after touches) := by
  induction h with
  | nil => exact .rest rfl (.inl ⟨rfl, rfl⟩) (by simp)
  | look _ hfollows ih =>
      rw [Key.after_concat]
      exact ih.touch_look hfollows
  | press _ hfollows hclock hedge hlooked ih =>
      rw [Key.after_concat]
      exact ih.touch_press hfollows hclock hedge hlooked
  | release _ hfollows hclock hedge ih =>
      rw [Key.after_concat]
      exact ih.touch_release hfollows hclock hedge

/-- In an orderly history each look reports exactly what is due. -/
theorem Key.reports_iff_due (button : Button) {touches : List Touch} (h : Orderly touches) :
    ∀ before now after, touches = before ++ .look now :: after →
      ∀ g, (((untouched button).after before).tick (UInt32.ofNat now)).1 = some g ↔
        Due before now g := by
  intro before now after htouches g
  rw [htouches, List.append_cons] at h
  obtain ⟨hbefore, hfollows⟩ := h.of_append.of_concat
  exact (hbefore.stands button).tick_eq_some_iff hfollows g

/-- A short press while the clock turns over, and a long one after it. -/
def turnover : List Touch :=
  [.press (2 ^ 32 - 100), .look (2 ^ 32 + 50), .release (2 ^ 32 + 100), .look (2 ^ 32 + 120),
    .press (2 ^ 32 + 1000), .look (2 ^ 32 + 4000)]

theorem orderly_turnover : Orderly turnover := by
  have h := @Orderly.press _ (2 ^ 32 - 100) .nil ⟨by decide, by decide⟩ (by decide)
    (fun _ he => by cases he) (by decide)
  have h := @Orderly.look _ (2 ^ 32 + 50) h ⟨by decide, by decide⟩
  have h := @Orderly.release _ (2 ^ 32 + 100) h ⟨by decide, by decide⟩ (by decide)
    ⟨_, by decide, rfl⟩
  have h := @Orderly.look _ (2 ^ 32 + 120) h ⟨by decide, by decide⟩
  have h := @Orderly.press _ (2 ^ 32 + 1000) h ⟨by decide, by decide⟩ (by decide)
    (fun e he => ⟨2 ^ 32 + 100, by decide, Option.some.inj he.symm⟩) (by decide)
  exact @Orderly.look _ (2 ^ 32 + 4000) h ⟨by decide, by decide⟩

theorem Key.reports_iff_due_turnover : Orderly turnover ∧
    (((untouched .report).after (turnover.take 3)).tick (UInt32.ofNat (2 ^ 32 + 120))).1 =
      some .short ∧
    (((untouched .report).after (turnover.take 5)).tick (UInt32.ofNat (2 ^ 32 + 4000))).1 =
      some .long := by
  have hreports := reports_iff_due .report orderly_turnover
  refine ⟨orderly_turnover, ?_, ?_⟩
  · exact (hreports (turnover.take 3) _ (turnover.drop 4) rfl .short).2
      ⟨[], 2 ^ 32 - 100, 2 ^ 32 + 100, [2 ^ 32 + 50], rfl, by decide⟩
  · exact (hreports (turnover.take 5) _ [] rfl .long).2
      ⟨turnover.take 4, 2 ^ 32 + 1000, [], rfl, by decide, by decide⟩

end MeshLight
