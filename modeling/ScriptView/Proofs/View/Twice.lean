import ScriptView.Proofs.Host.Session
import ScriptView.Proofs.Memory.Apart
import ScriptView.Proofs.View.Stack

/-!
# Views of views

A view through a mapping on top of another one through the same mapping shows what the
other one shows. Every operation translates paths in its own way, and each of these ways
leads to paths that are not translated again, provided that no component has a virtual
path. Sessions with two such layers therefore go like sessions with one of them
(`session_viewThrough_twice`), and they do so for no other mappings (`session_twice_iff`).
-/

namespace ScriptView

open Text

namespace View

variable {σ : Type} {mapping : Mapping} {host : Host σ} {path : String} {state : σ}

/-- A layer passes a question on about a path that is not virtual for it. -/
theorem read_of_not_isVirtual (plain : mapping.isVirtual path = false) (state : σ) :
    read mapping host path state = host.read path state := by
  rw [read, plain, if_neg Bool.false_ne_true]

/-- A layer shows the script of what the host reads in place of a virtual path. -/
theorem read_of_isVirtual (virtual : mapping.isVirtual path = true) (state : σ) :
    read mapping host path state =
      (host.read (mapping.toComponent path) state).map scriptOf := by
  rw [read, if_pos virtual]

section Parted

variable (parted : mapping.Parted)

include parted

/-- The layer below passes on what the layer on top reads. -/
theorem read_view_self (host : Host σ) (path : String) (state : σ) :
    read mapping (host.view mapping) path state = read mapping host path state := by
  cases virtual : mapping.isVirtual path with
  | false => rw [read_of_not_isVirtual virtual]; rfl
  | true =>
      rw [read_of_isVirtual virtual, read_of_isVirtual virtual]
      change (read mapping host (mapping.toComponent path) state).map scriptOf = _
      rw [read_of_not_isVirtual (parted.isVirtual_toComponent path)]

/-- It passes on what the layer on top writes, too, once that has read the component. -/
theorem write_view_self (host : Host σ) (path text : String) (state : σ) :
    write mapping (host.view mapping) path text state = write mapping host path text state := by
  cases virtual : mapping.isVirtual path with
  | false => rw [write_of_not_isVirtual virtual]; rfl
  | true =>
      have below : (host.view mapping).read (mapping.toComponent path) state =
          host.read (mapping.toComponent path) state :=
        read_of_not_isVirtual (parted.isVirtual_toComponent path) state
      cases answer : host.read (mapping.toComponent path) state with
      | error error =>
          rw [write_of_read_error virtual answer,
            write_of_read_error virtual (below.trans answer)]
      | ok document =>
          rw [write_of_read_ok virtual answer, write_of_read_ok virtual (below.trans answer)]
          cases Component.withScript? document text with
          | none => rfl
          | some changed =>
              change write mapping host (mapping.toComponent path) changed state = _
              rw [write_of_not_isVirtual (parted.isVirtual_toComponent path)]

theorem rename_rename (entry : Entry) :
    rename mapping (rename mapping entry) = rename mapping entry := by
  rw [rename, rename, parted.toVirtual_toVirtual]

/-- What is listed under the names of scripts is not renamed by another layer. -/
theorem list_view_self (host : Host σ) (path : String) (state : σ) :
    ((host.view mapping).view mapping).list path state = (host.view mapping).list path state := by
  change ((host.list path state).map _).map _ = (host.list path state).map _
  cases host.list path state with
  | error error => rfl
  | ok entries =>
      change Except.ok ((entries.map (rename mapping)).map (rename mapping)) = .ok _
      rw [List.map_map]
      apply congrArg Except.ok
      exact List.map_congr_left fun entry _ => rename_rename parted entry

/-- Two layers reply to a question what one layer replies. -/
theorem reply_view_self (host : Host σ) (state : σ) (question : Question) :
    ((host.view mapping).view mapping).reply state question =
      (host.view mapping).reply state question := by
  cases question with
  | isCaseSensitive | currentDirectory => rfl
  | read path =>
      change (read mapping (host.view mapping) path state).map Reply.text = _
      rw [read_view_self parted]
      rfl
  | list path =>
      change ((((host.view mapping).view mapping).list path state).map Reply.entries) = _
      rw [list_view_self parted]
      rfl
  | hasFile path =>
      change Except.ok (Reply.truth (host.hasFile
        (mapping.toComponent (mapping.toComponent path)) state)) = _
      rw [parted.toComponent_toComponent]
      rfl
  | hasDirectory path =>
      change Except.ok (Reply.truth (host.hasDirectory
        (mapping.toComponent (mapping.toComponent path)) state)) = _
      rw [parted.toComponent_toComponent]
      rfl
  | realPath path =>
      change (host.realPath (mapping.toComponent (mapping.toComponent path)) state).map
        Reply.text = _
      rw [parted.toComponent_toComponent]
      rfl
  | glob patterns =>
      have again : (patterns.map mapping.toVirtual).map mapping.toVirtual =
          patterns.map mapping.toVirtual := by
        rw [List.map_map]
        exact List.map_congr_left fun pattern _ => parted.toVirtual_toVirtual pattern
      change Except.ok (Reply.paths
        (host.glob ((patterns.map mapping.toVirtual).map mapping.toVirtual) state)) = _
      rw [again]
      rfl

/-- Two layers make the changes that one layer makes, and fail where it fails. -/
theorem run_view_self (host : Host σ) (state : σ) (change : Change) :
    change.run ((host.view mapping).view mapping) state =
      change.run (host.view mapping) state := by
  cases change with
  | write path text => exact write_view_self parted host path text state
  | makeDirectory path => rfl
  | delete path =>
      change host.delete (mapping.toComponent (mapping.toComponent path)) state = _
      rw [parted.toComponent_toComponent]
      rfl
  | move source target =>
      change host.move (mapping.toComponent (mapping.toComponent source))
        (mapping.toComponent (mapping.toComponent target)) state = _
      rw [parted.toComponent_toComponent, parted.toComponent_toComponent]
      rfl
  | copy source target =>
      change host.copy (mapping.toComponent (mapping.toComponent source))
        (mapping.toComponent (mapping.toComponent target)) state = _
      rw [parted.toComponent_toComponent, parted.toComponent_toComponent]
      rfl

/-- A request to two layers comes to the same as one to a single layer. -/
theorem exchange_view_self (host : Host σ) (state : σ) (request : Request) :
    ((host.view mapping).view mapping).exchange state request =
      (host.view mapping).exchange state request := by
  cases request with
  | ask question => rw [Host.exchange, reply_view_self parted, Host.exchange]
  | make change => rw [Host.exchange, run_view_self parted, Host.exchange]

theorem session_view_self (host : Host σ) (state : σ) (requests : List Request) :
    ((host.view mapping).view mapping).session state requests =
      (host.view mapping).session state requests :=
  Host.session_congr (exchange_view_self parted host) state requests

end Parted

/-- Two layers through a mapping whose extensions do not end with each other cannot be
told from one. Whatever is asked of them or done through them, in any order, has the same
reply or the same error and leaves the same state. -/
theorem session_viewThrough_twice {mapping : Mapping}
    (scriptDiffers : endsWith mapping.script mapping.component = false)
    (componentDiffers : endsWith mapping.component mapping.script = false)
    (host : Host σ) (state : σ) (requests : List Request) :
    (host.viewThrough [mapping, mapping]).session state requests =
      (host.viewThrough [mapping]).session state requests :=
  session_view_self (Mapping.parted_of_unrelated scriptDiffers componentDiffers) host state requests

/-- A session through two default layers, with a request that fails in the end. -/
theorem session_viewThrough_twice_failing :
    endsWith Mapping.standard.script Mapping.standard.component = false ∧
      endsWith Mapping.standard.component Mapping.standard.script = false ∧
      ∃ store, Memory.Reachable store ∧
        (((Memory.host store.current).viewThrough [.standard, .standard]).session store.tree
          [.ask (.read "/d/A.vue.ts"), .make (.write "/d/A.vue.ts" "b"), .ask (.list "/d"),
            .ask (.read "/d/A.vue"), .make (.delete "/d/B.vue.ts")]).map Exchange.reply =
          [.ok (.text "a"), .ok .done, .ok (.entries [⟨"/d/A.vue.ts", true, false, false⟩]),
            .ok (.text "<script>\nb</script>"), .error (.fileNotFound "/d/B.vue")] := by
  have scriptDiffers : endsWith Mapping.standard.script Mapping.standard.component = false := by
    decide +kernel
  have componentDiffers : endsWith Mapping.standard.component Mapping.standard.script = false := by
    decide +kernel
  refine ⟨scriptDiffers, componentDiffers, _,
    .changed (.write "/d/A.vue" "<script>\na</script>") .new, ?_⟩
  rw [session_viewThrough_twice scriptDiffers componentDiffers]
  decide +kernel

/-! ## Mappings that tell two layers from one -/

/-- If some component has a virtual path, one has that is in no root directory. -/
theorem exists_component_of_not_parted {mapping : Mapping} (notParted : ¬mapping.Parted)
    (current : Location) :
    ∃ component, endsWith component mapping.component = true ∧
      endsWith (component ++ mapping.script) mapping.component = true ∧
      current.resolve component ≠ .root := by
  rw [Mapping.parted_iff, Bool.not_eq_false, Mapping.virtualSuffix] at notParted
  obtain ⟨front, whole⟩ := endsWith_iff.mp notParted
  obtain ⟨directory, below⟩ := current.exists_resolve_ne_root mapping.component
  refine ⟨directory.belowText ++ mapping.component, endsWith_append _ _, ?_, below⟩
  rw [String.append_assoc, whole, ← String.append_assoc]
  exact endsWith_append _ _

/-- A tree can have a file anywhere but at the root, and no other file. -/
theorem exists_seeded {path : String} (below : Location.root.resolve path ≠ .root) (text : String) :
    ∃ tree, Memory.seed [(path, text)] = .ok tree ∧
      ∀ place, tree.text? place =
        if place = Location.root.resolve path then some text else none := by
  have notDirectory : Memory.Tree.empty.isDirectory (Location.root.resolve path) = false := by
    simpa using below
  have noFile : ∀ place, place <+: (Location.root.resolve path).dropLast →
      Memory.Tree.empty.isFile place = false := by
    intro place _
    rw [Memory.Tree.isFile_eq_isSome, Memory.Tree.text?_empty]
    rfl
  obtain ⟨tree, added⟩ :=
    (Memory.Tree.closed_empty.exists_addFile_iff text).mpr ⟨notDirectory, noFile⟩
  refine ⟨tree, ?_, ?_⟩
  · rw [Memory.seed, List.foldlM_cons]
    dsimp only
    rw [added]
    rfl
  · intro place
    rw [Memory.Tree.text?_addFile added, Memory.Tree.text?_empty]

/-- Two layers read the script of a script where one layer reads a script. -/
theorem read_view_ne {mapping : Mapping} {component : String} {tree : Memory.Tree}
    (ends : endsWith component mapping.component = true)
    (endsToo : endsWith (component ++ mapping.script) mapping.component = true)
    (texts : ∀ place, tree.text? place =
      if place = Location.root.resolve component then some "<script><script>a</script>" else none) :
    (((Memory.host .root).view mapping).view mapping).read
        (component ++ mapping.script ++ mapping.script) tree ≠
      ((Memory.host .root).view mapping).read
        (component ++ mapping.script ++ mapping.script) tree := by
  have twice : (((Memory.host .root).view mapping).view mapping).read
      (component ++ mapping.script ++ mapping.script) tree = .ok "a" := by
    have stored : (Memory.host .root).read component tree = .ok "<script><script>a</script>" := by
      apply Memory.Tree.read_eq_ok.mpr
      rw [texts, if_pos rfl]
    change read mapping ((Memory.host .root).view mapping) _ tree = _
    rw [read_of_isVirtual (Mapping.isVirtual_append_script endsToo),
      Mapping.toComponent_append_script endsToo]
    change (read mapping (Memory.host .root) _ tree).map scriptOf = _
    rw [read_of_isVirtual (Mapping.isVirtual_append_script ends),
      Mapping.toComponent_append_script ends, stored]
    decide +kernel
  have once : ((Memory.host .root).view mapping).read
      (component ++ mapping.script ++ mapping.script) tree =
        ((Memory.host .root).read (component ++ mapping.script) tree).map scriptOf := by
    change read mapping (Memory.host .root) _ tree = _
    rw [read_of_isVirtual (Mapping.isVirtual_append_script endsToo),
      Mapping.toComponent_append_script endsToo]
  rw [twice, once]
  cases answer : (Memory.host .root).read (component ++ mapping.script) tree with
  | error error =>
      intro same
      cases same
  | ok document =>
      have stored := Memory.Tree.read_eq_ok.mp answer
      rw [texts] at stored
      split at stored
      · cases stored
        decide +kernel
      · cases stored

/-- Two layers cannot be told from one exactly if no component has a virtual path. -/
theorem session_twice_iff (mapping : Mapping) :
    (∀ store, Memory.Reachable store → ∀ requests,
      ((Memory.host store.current).viewThrough [mapping, mapping]).session store.tree requests =
        ((Memory.host store.current).viewThrough [mapping]).session store.tree requests) ↔
      mapping.Parted := by
  constructor
  · intro same
    apply Classical.byContradiction
    intro notParted
    obtain ⟨component, ends, endsToo, below⟩ := exists_component_of_not_parted notParted .root
    obtain ⟨tree, seeds, texts⟩ := exists_seeded below "<script><script>a</script>"
    have sessions := same _ (.seeded seeds)
      [.ask (.read (component ++ mapping.script ++ mapping.script))]
    have replies := congrArg Exchange.reply (List.cons.inj sessions).1
    exact read_view_ne ends endsToo texts (Reply.eq_of_map_text replies)
  · intro parted store _ requests
    exact session_view_self parted _ store.tree requests

end View

end ScriptView
