import SourceBundle.Project
import SourceBundle.Proofs.Disk.Growth
import SourceBundle.Proofs.Disk.Lookup

/-!
What a written file leaves behind. A file takes the place of a file or of nothing, so every walk that
found its way before finds it still, and the walk to the written path ends at the file. A device
takes what is written and the disk stays as it is.
-/

namespace SourceBundle

namespace World

variable {w w' : World} {p : Path} {content : Bytes}

/-- Where a path leads to be written to. -/
def destination (w : World) (p : Path) : Disk.Goal :=
  w.disk.approach maxLinks (Disk.origin p w.cwd) p.steps p.endsInSlash

/-- What a writing can do: a device takes the bytes and the world stays as it is, or a file is put
into a directory, in place of a file or of nothing, and its path leads there from then on. -/
inductive Writes (w : World) (p : Path) (content : Bytes) : World → Prop
  | device {place : Place} {kind : Device} (reached : w.destination p = .found place false)
      (standing : w.disk.node? place = some (.device kind))
      (taken : kind = .full → content = []) : Writes w p content w
  | file {trail : List Name} {name : Name} {entries : Listing}
      (into : w.disk.node? (.named trail) = some (.directory entries))
      (free : ∀ old, Listing.find? entries name = some old → ∃ bytes, old = .file bytes)
      (reached : { w with disk := w.disk.put trail name (.file content) }.destination p =
        .found (.named (trail ++ [name])) false) :
      Writes w p content { w with disk := w.disk.put trail name (.file content) }

/-- A file in place of a file or of nothing is seen only where nothing was to be seen. -/
theorem keeps_put_file {d : Disk} {trail : List Name} {name : Name} {entries : Listing}
    (content : Bytes) (hat : d.node? (.named trail) = some (.directory entries))
    (hfree : ∀ old, Listing.find? entries name = some old → ∃ bytes, old = .file bytes) :
    (d.put trail name (.file content)).Keeps d := by
  refine Disk.keeps_put hat ?_ rfl
  intro old hold
  obtain ⟨bytes, rfl⟩ := hfree old hold
  exact ⟨rfl, rfl⟩

/-- Where nothing stands yet a file is made. -/
theorem writes_vacant {trail : List Name} {name : Name}
    (h : w.destination p = .vacant (.named trail) name false) :
    w.Writes p content { w with disk := w.disk.put trail name (.file content) } := by
  obtain ⟨hmissing, -⟩ := ((Disk.Leads.refl w.disk).approach ..).2 _ _ _ h
  obtain ⟨entries, hat, hfind, -⟩ := Disk.find?_of_turn_missing hmissing
  have hfree : ∀ old, Listing.find? entries name = some old → ∃ bytes, old = .file bytes := by
    simp [hfind]
  obtain ⟨-, hthere⟩ := ((keeps_put_file content hat hfree).leads.approach ..).2 _ _ _ h
  exact .file hat hfree (hthere _ (Disk.turn_put hmissing rfl (by simp)))

/-- A file that stands there is replaced. -/
theorem writes_found {front : List Name} {last : Name} {bytes : Bytes}
    (h : w.destination p = .found (.named (front ++ [last])) false)
    (hnode : w.disk.node? (.named (front ++ [last])) = some (.file bytes)) :
    w.Writes p content { w with disk := w.disk.put front last (.file content) } := by
  obtain ⟨entries, hat, hfind⟩ := Node.at?_concat_eq_some hnode
  have hfree : ∀ old, Listing.find? entries last = some old → ∃ bytes, old = .file bytes := by
    simp [hfind]
  exact .file hat hfree (((keeps_put_file content hat hfree).leads.approach ..).1 _ _ h)

/-- A writing that succeeds does one of these. -/
theorem writes_of_writeFile (h : w.writeFile p content = .ok w') :
    p.refusal? = none ∧ w.Writes p content w' := by
  unfold writeFile at h
  cases hrefusal : p.refusal? with
  | some cause => simp [hrefusal] at h
  | none =>
    refine ⟨rfl, ?_⟩
    simp only [hrefusal] at h
    obtain ⟨hfoundIff, hvacantIff⟩ :=
      w.disk.approach_iff maxLinks (Disk.origin p w.cwd) p.steps p.endsInSlash
    split at h
    · cases h
    · next place name s happroach =>
      obtain ⟨rfl, -⟩ := (hvacantIff _ _ _).1 happroach
      cases place with
      | removed above => cases h
      | named trail =>
        obtain ⟨rfl⟩ := h
        exact writes_vacant happroach
    · next place s happroach =>
      obtain ⟨rfl, -⟩ := (hfoundIff _ _).1 happroach
      split at h
      · next old hnode =>
        obtain ⟨rfl⟩ := h
        cases place with
        | removed above => cases hnode
        | named trail =>
          rcases List.eq_nil_or_concat' trail with rfl | ⟨front, last, rfl⟩
          · cases hnode
          · have hput : w.overwrite (.named (front ++ [last])) (.file content) =
                { w with disk := w.disk.put front last (.file content) } := by
              simp [overwrite]
            rw [hput]
            exact writes_found happroach hnode
      · next hnode =>
        split at h
        · next hempty =>
          obtain ⟨rfl⟩ := h
          exact .device happroach hnode fun _ => List.isEmpty_iff.1 hempty
        · cases h
      · next hnode =>
        obtain ⟨rfl⟩ := h
        exact .device happroach hnode (by simp)
      · cases h

/-- Where a path leads to be written to, there it leads. -/
theorem follow_of_destination {place : Place} {node : Node} (hrefusal : p.refusal? = none)
    (h : w.destination p = .found place false) (hnode : w.disk.node? place = some node) :
    w.follow p = .ok (place, node) := by
  obtain ⟨-, hchase⟩ := ((w.disk.approach_iff ..).1 _ _).1 h
  exact follow_eq_ok_iff.2 ⟨hrefusal, false, hchase, hnode, by simp⟩

/-- A written path leads to what was written, or to a device that keeps nothing. -/
theorem follow_of_writeFile (h : w.writeFile p content = .ok w') :
    ∃ place node, w'.follow p = .ok (place, node) ∧
      (node = .file content ∨ w' = w ∧ ∃ kind, node = .device kind) := by
  obtain ⟨hrefusal, hwrites⟩ := writes_of_writeFile h
  cases hwrites with
  | device reached standing _ =>
    exact ⟨_, _, follow_of_destination hrefusal reached standing, .inr ⟨rfl, _, rfl⟩⟩
  | file into _ reached =>
    exact ⟨_, _, follow_of_destination hrefusal reached (Disk.node?_put into _), .inl rfl⟩

/-- A document is written by preparing its directory and writing the file. -/
theorem writeDocument_eq_ok {text : String} (h : w.writeDocument p text = (w', .ok ())) :
    ∃ prepared, w.prepareParent p = (prepared, .ok ()) ∧
      prepared.writeFile p (Bytes.ofString text) = .ok w' := by
  unfold writeDocument at h
  split at h
  · cases h
  next prepared hprepared =>
  split at h
  · next written hwritten =>
    obtain ⟨rfl, -⟩ := Prod.mk.inj h
    exact ⟨prepared, hprepared, hwritten⟩
  · cases h

/-- A document that was written is what its path leads to, or the path leads to a device and all that
changed are the directories above it. -/
theorem follow_of_writeDocument {text : String} (h : (w.writeDocument p text).2 = .ok ()) :
    ∃ place node, (w.writeDocument p text).1.follow p = .ok (place, node) ∧
      (node = .file (Bytes.ofString text) ∨
        (w.writeDocument p text).1 = (w.prepareParent p).1 ∧ ∃ kind, node = .device kind) := by
  obtain ⟨w', hwrite⟩ : ∃ w', w.writeDocument p text = (w', .ok ()) := ⟨_, Prod.ext rfl h⟩
  obtain ⟨prepared, hprepared, hwritten⟩ := writeDocument_eq_ok hwrite
  obtain ⟨place, node, hfollow, hnode⟩ := follow_of_writeFile hwritten
  rw [hwrite, hprepared]
  exact ⟨place, node, hfollow, hnode⟩

end World

end SourceBundle
