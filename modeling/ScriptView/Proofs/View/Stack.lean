import ScriptView.Proofs.Mapping
import ScriptView.Proofs.Memory.Reachable
import ScriptView.View

/-!
# Writing through a stack of views

Views can be put on top of each other, so that what one layer takes for a
component is the script that a layer below it shows. A path goes down through all
of them and is translated by each layer for which it is virtual. A write that is
translated on its way changes the text of the file at the bottom or nothing at
all, and which of the two happens is known from what the layers read before it.
-/

namespace ScriptView

namespace Memory.Tree

/-- One tree is another but for the text at one place. Both have the same files and
the same directories. -/
structure SameBut (place : Location) (tree changed : Tree) : Prop where
  isFile : ∀ other, changed.isFile other = tree.isFile other
  isDirectory : ∀ other, changed.isDirectory other = tree.isDirectory other
  text : ∀ other, other ≠ place → changed.text? other = tree.text? other

theorem SameBut.refl (place : Location) (tree : Tree) : SameBut place tree tree :=
  ⟨fun _ => rfl, fun _ => rfl, fun _ _ => rfl⟩

/-- Writing a file that is there makes no directories. -/
theorem Closed.sameBut_of_addFile {tree written : Tree} {place : Location} {text : String}
    (closed : tree.Closed) (file : tree.isFile place = true)
    (added : tree.addFile place text = .ok written) : SameBut place tree written := by
  constructor
  · intro other
    rw [Bool.eq_iff_iff, isFile_addFile added]
    constructor
    · rintro (rfl | old)
      · exact file
      · exact old
    · exact .inr
  · intro other
    rcases exists_made_of_addFile added with ⟨_, made, directories, same⟩
    rw [same, isDirectory_addDirectories (missing_of_isDirectory (closed.aboveFile place file))
      directories]
    simp
  · intro other differs
    rw [text?_addFile added, if_neg differs]

end Memory.Tree

namespace View

variable {σ : Type}

/-- Where a path leads through a row of mappings. The last one is on top and
translates first. -/
def componentThrough (mappings : List Mapping) (path : String) : String :=
  mappings.foldr Mapping.toComponent path

/-- A layer of a stack, with the layers below it and those above it. -/
structure Layer where
  below : List Mapping
  mapping : Mapping
  above : List Mapping

namespace Layer

/-- The layer translates a path that comes down through a stack. -/
structure Translates (layer : Layer) (mappings : List Mapping) (path : String) : Prop where
  isLayer : mappings = layer.below ++ layer.mapping :: layer.above
  virtual : layer.mapping.isVirtual (componentThrough layer.above path) = true

/-- What the layer takes for the component of a path. -/
def read (layer : Layer) (host : Host σ) (path : String) (state : σ) : Except Error String :=
  (host.viewThrough layer.below).read
    (layer.mapping.toComponent (componentThrough layer.above path)) state

end Layer

/-- Every layer that translates a path reads a component that has a script. -/
def Scripted (host : Host σ) (mappings : List Mapping) (path : String) (state : σ) : Prop :=
  ∀ layer : Layer, layer.Translates mappings path →
    ∃ document, layer.read host path state = .ok document ∧
      (Component.outline document.toList).scriptBlock?.isSome = true

/-! ## The layer on top -/

section Top

variable {host : Host σ} {mappings : List Mapping} {mapping : Mapping} {path : String} {state : σ}

theorem viewThrough_concat (host : Host σ) (mappings : List Mapping) (mapping : Mapping) :
    host.viewThrough (mappings ++ [mapping]) = (host.viewThrough mappings).view mapping :=
  List.foldl_concat ..

theorem componentThrough_append (below above : List Mapping) (path : String) :
    componentThrough (below ++ above) path = componentThrough below (componentThrough above path) :=
  List.foldr_append ..

theorem componentThrough_concat (mappings : List Mapping) (mapping : Mapping) (path : String) :
    componentThrough (mappings ++ [mapping]) path =
      componentThrough mappings (mapping.toComponent path) :=
  componentThrough_append mappings [mapping] path

/-- Either the layer on top translates a path, or a layer below it does so with the
path that comes through. -/
theorem Layer.translates_concat {layer : Layer} :
    layer.Translates (mappings ++ [mapping]) path ↔
      layer = ⟨mappings, mapping, []⟩ ∧ mapping.isVirtual path = true ∨
      ∃ above, layer.above = above ++ [mapping] ∧
        Layer.Translates ⟨layer.below, layer.mapping, above⟩ mappings
          (mapping.toComponent path) := by
  constructor
  · rintro ⟨isLayer, virtual⟩
    rcases layer with ⟨below, translating, above⟩
    dsimp only at isLayer virtual
    rcases List.eq_nil_or_concat above with rfl | ⟨others, last, rfl⟩
    · rcases List.append_inj' isLayer rfl with ⟨rfl, same⟩
      cases same
      exact .inl ⟨rfl, virtual⟩
    · rw [List.concat_eq_append, ← List.cons_append, ← List.append_assoc] at isLayer
      rcases List.append_inj' isLayer rfl with ⟨front, same⟩
      cases same
      rw [List.concat_eq_append, componentThrough_append] at virtual
      exact .inr ⟨others, List.concat_eq_append, front, virtual⟩
  · rintro (⟨rfl, virtual⟩ | ⟨above, isAbove, isLayer, virtual⟩)
    · exact ⟨rfl, virtual⟩
    · constructor
      · rw [isAbove, isLayer, List.append_assoc, List.cons_append]
      · rw [isAbove, componentThrough_append]
        exact virtual

/-- What a lower layer reads does not depend on the layer on top. -/
theorem Layer.read_concat (below above : List Mapping) (translating mapping : Mapping)
    (host : Host σ) (path : String) (state : σ) :
    Layer.read ⟨below, translating, above ++ [mapping]⟩ host path state =
      Layer.read ⟨below, translating, above⟩ host (mapping.toComponent path) state := by
  rw [read, read, componentThrough_append]
  rfl

theorem scripted_concat :
    Scripted host (mappings ++ [mapping]) path state ↔
      (mapping.isVirtual path = true → ∃ document,
        (host.viewThrough mappings).read (mapping.toComponent path) state = .ok document ∧
          (Component.outline document.toList).scriptBlock?.isSome = true) ∧
      Scripted host mappings (mapping.toComponent path) state := by
  constructor
  · intro scripted
    constructor
    · intro virtual
      exact scripted _ (Layer.translates_concat.mpr (.inl ⟨rfl, virtual⟩))
    · rintro ⟨below, translating, above⟩ translates
      rw [← Layer.read_concat]
      exact scripted _ (Layer.translates_concat.mpr (.inr ⟨above, rfl, translates⟩))
  · rintro ⟨onTop, further⟩ layer translates
    rcases Layer.translates_concat.mp translates with ⟨rfl, virtual⟩ | ⟨above, isAbove, lower⟩
    · exact onTop virtual
    · rcases layer with ⟨below, translating, _⟩
      dsimp only at isAbove
      rw [isAbove, Layer.read_concat]
      exact further _ lower

/-- A layer passes a path on that is not virtual for it. -/
theorem write_of_not_isVirtual (plain : mapping.isVirtual path = false) (text : String) :
    write mapping host path text = host.write path text := by
  rw [write, plain, if_neg Bool.false_ne_true]

/-- A write fails in a layer that cannot read the component. -/
theorem write_of_read_error {error : Error} (virtual : mapping.isVirtual path = true)
    (fails : host.read (mapping.toComponent path) state = .error error) (text : String) :
    write mapping host path text state = .error error state := by
  rw [write, if_pos virtual]
  change EStateM.bind (Host.ask (host.read (mapping.toComponent path))) _ state = _
  rw [EStateM.bind, Host.ask, fails]

/-- A layer that can read the component writes it with the script, if it has one. -/
theorem write_of_read_ok {document : String} (virtual : mapping.isVirtual path = true)
    (answer : host.read (mapping.toComponent path) state = .ok document) (text : String) :
    write mapping host path text state =
      match Component.withScript? document text with
      | some changed => host.write (mapping.toComponent path) changed state
      | none => .error (.missingScriptBlock (mapping.toComponent path)) state := by
  rw [write, if_pos virtual]
  change EStateM.bind (Host.ask (host.read (mapping.toComponent path))) _ state = _
  rw [EStateM.bind, Host.ask, answer]
  dsimp only
  cases Component.withScript? document text <;> rfl

theorem isSome_withScript? (document text : String) :
    (Component.withScript? document text).isSome =
      (Component.outline document.toList).scriptBlock?.isSome := by
  rw [Component.withScript?, Component.withScriptText?, Option.isSome_map, Option.isSome_map]

end Top

/-! ## The whole stack -/

section Stack

variable {current : Location} {mappings : List Mapping} {path text : String} {tree : Memory.Tree}

/-- Reading through a stack gives an answer exactly if the file at the bottom is
there. A layer reads a component without a script as an empty text. -/
theorem exists_read_viewThrough_iff :
    (∃ document, ((Memory.host current).viewThrough mappings).read path tree = .ok document) ↔
      tree.isFile (current.resolve (componentThrough mappings path)) = true := by
  induction mappings using List.reverseRecOn generalizing path with
  | nil =>
      rw [Memory.Tree.isFile_eq_isSome, Option.isSome_iff_exists]
      exact exists_congr fun document => Memory.Tree.read_eq_ok
  | append_singleton below mapping ih =>
      rw [componentThrough_concat, viewThrough_concat]
      change (∃ document, read mapping _ path tree = .ok document) ↔ _
      rw [← ih, read]
      cases virtual : mapping.isVirtual path with
      | false =>
          rw [Mapping.toComponent_of_not_isVirtual virtual, if_neg Bool.false_ne_true]
      | true =>
          rw [if_pos rfl]
          cases ((Memory.host current).viewThrough below).read (mapping.toComponent path) tree with
          | error =>
              constructor
              · rintro ⟨document, answer⟩
                cases answer
              · rintro ⟨document, answer⟩
                cases answer
          | ok document =>
              constructor
              · intro _
                exact ⟨document, rfl⟩
              · intro _
                exact ⟨scriptOf document, rfl⟩

/-- If all components on the way have a script, the file at the bottom is written. -/
theorem exists_write_of_scripted (closed : tree.Closed)
    (file : tree.isFile (current.resolve (componentThrough mappings path)) = true)
    (scripted : Scripted (Memory.host current) mappings path tree) :
    ∃ written, ((Memory.host current).viewThrough mappings).write path text tree =
        .ok () written ∧
      Memory.Tree.SameBut (current.resolve (componentThrough mappings path)) tree written := by
  induction mappings using List.reverseRecOn generalizing path text with
  | nil =>
      rcases closed.exists_addFile file text with ⟨written, added⟩
      exact ⟨written, Memory.write_of_addFile added, closed.sameBut_of_addFile file added⟩
  | append_singleton below mapping ih =>
      rw [componentThrough_concat] at file ⊢
      rcases scripted_concat.mp scripted with ⟨onTop, further⟩
      rw [viewThrough_concat]
      change ∃ written, write mapping _ path text tree = .ok () written ∧ _
      cases virtual : mapping.isVirtual path with
      | false =>
          rw [write_of_not_isVirtual virtual]
          rw [Mapping.toComponent_of_not_isVirtual virtual] at file further ⊢
          exact ih file further
      | true =>
          rcases onTop virtual with ⟨document, answer, hasScript⟩
          rw [← isSome_withScript? document text, Option.isSome_iff_exists] at hasScript
          rcases hasScript with ⟨changed, wrote⟩
          rw [write_of_read_ok virtual answer, wrote]
          exact ih file further

/-- If a component on the way cannot be read or has no script, the write fails and
leaves the tree as it was. -/
theorem exists_error_of_not_scripted
    (without : ¬Scripted (Memory.host current) mappings path tree) :
    ∃ error, ((Memory.host current).viewThrough mappings).write path text tree =
      .error error tree := by
  induction mappings using List.reverseRecOn generalizing path text with
  | nil =>
      refine absurd ?_ without
      rintro layer ⟨isLayer, _⟩
      exact absurd isLayer.symm (List.append_ne_nil_of_right_ne_nil _ (List.cons_ne_nil _ _))
  | append_singleton below mapping ih =>
      rw [viewThrough_concat]
      change ∃ error, write mapping _ path text tree = .error error tree
      rw [scripted_concat] at without
      cases virtual : mapping.isVirtual path with
      | false =>
          rw [write_of_not_isVirtual virtual]
          rw [virtual, Mapping.toComponent_of_not_isVirtual virtual] at without
          exact ih fun further => without ⟨fun isVirtual => absurd isVirtual Bool.false_ne_true, further⟩
      | true =>
          cases answer : ((Memory.host current).viewThrough below).read
              (mapping.toComponent path) tree with
          | error error => exact ⟨error, write_of_read_error virtual answer text⟩
          | ok document =>
              rw [write_of_read_ok virtual answer]
              cases wrote : Component.withScript? document text with
              | none => exact ⟨_, rfl⟩
              | some changed =>
                  apply ih
                  intro further
                  refine without ⟨fun _ => ⟨document, answer, ?_⟩, further⟩
                  rw [← isSome_withScript? document text, wrote, Option.isSome_some]

/-- The file at the bottom is there if a layer that translates the path can read. -/
theorem isFile_of_read {layer : Layer} {document : String}
    (translates : layer.Translates mappings path)
    (answer : layer.read (Memory.host current) path tree = .ok document) :
    tree.isFile (current.resolve (componentThrough mappings path)) = true := by
  rw [translates.isLayer, componentThrough_append]
  exact exists_read_viewThrough_iff.mp ⟨document, answer⟩

/-- A write to a path that some layer translates changes one text or nothing. It is
done exactly if the file at the bottom is there and all components that the
translating layers read have a script; no file or directory comes or goes and no
other file changes, and a write that fails leaves the tree as it was. -/
theorem allOrNothing_write {store : Memory.Store} (reachable : Memory.Reachable store)
    {mappings : List Mapping} {path : String}
    (translated : ∃ layer : Layer, layer.Translates mappings path) (text : String) :
    let host := Memory.host store.current
    let action := (host.viewThrough mappings).write path text
    let place := store.current.resolve (componentThrough mappings path)
    ((∃ written, action store.tree = .ok () written) ↔
        store.tree.isFile place = true ∧ Scripted host mappings path store.tree) ∧
      Memory.Tree.SameBut place store.tree (action.after store.tree) ∧
      ∀ error left, action store.tree = .error error left → left = store.tree := by
  intro host action place
  by_cases scripted : Scripted host mappings path store.tree
  · rcases translated with ⟨layer, translates⟩
    rcases scripted layer translates with ⟨document, answer, _⟩
    have file := isFile_of_read translates answer
    rcases @exists_write_of_scripted _ _ _ text _ reachable.closed file scripted with
      ⟨written, ends, same⟩
    have endsSo : action store.tree = .ok () written := ends
    refine ⟨⟨fun _ => ⟨file, scripted⟩, fun _ => ⟨written, ends⟩⟩, ?_, ?_⟩
    · rw [Action.after, endsSo]
      exact same
    · intro error left fails
      rw [endsSo] at fails
      cases fails
  · rcases @exists_error_of_not_scripted _ _ _ text _ scripted with ⟨error, ends⟩
    have endsSo : action store.tree = .error error store.tree := ends
    refine ⟨⟨?_, fun able => absurd able.2 scripted⟩, ?_, ?_⟩
    · rintro ⟨written, done⟩
      rw [endsSo] at done
      cases done
    · rw [Action.after, endsSo]
      exact .refl place store.tree
    · intro other left fails
      rw [endsSo] at fails
      cases fails
      rfl

/-- Two layers that both translate a path. The component that the one on top reads is
the script of a component. -/
theorem allOrNothing_write_nested :
    ∃ (store : Memory.Store) (written : Memory.Tree), Memory.Reachable store ∧
      (∃ layer : Layer, layer.Translates [.standard, ⟨".vue.ts", ".ts"⟩] "A.vue.ts.ts") ∧
      ((Memory.host store.current).viewThrough [.standard, ⟨".vue.ts", ".ts"⟩]).write
        "A.vue.ts.ts" "let b" store.tree = .ok () written ∧
      Scripted (Memory.host store.current) [.standard, ⟨".vue.ts", ".ts"⟩] "A.vue.ts.ts"
        store.tree ∧
      Memory.Tree.SameBut (store.current.resolve
        (componentThrough [.standard, ⟨".vue.ts", ".ts"⟩] "A.vue.ts.ts")) store.tree written ∧
      written.text? (Location.root.resolve "/A.vue") =
        some "<script>\n<script>\nlet b</script>" := by
  have translated : ∃ layer : Layer,
      layer.Translates [.standard, ⟨".vue.ts", ".ts"⟩] "A.vue.ts.ts" :=
    ⟨⟨[.standard], ⟨".vue.ts", ".ts"⟩, []⟩, rfl, by decide +kernel⟩
  have start : ∃ store, Memory.Reachable store ∧
      ((((Memory.host store.current).viewThrough [.standard, ⟨".vue.ts", ".ts"⟩]).write
        "A.vue.ts.ts" "let b").left? store.tree).map
          (·.text? (Location.root.resolve "/A.vue")) =
        some (some "<script>\n<script>\nlet b</script>") :=
    ⟨_, .changed (.write "/A.vue" "<script><script>let a</script>") .new, by decide +kernel⟩
  rcases start with ⟨store, reachable, writes⟩
  rcases Action.exists_of_map_left? writes with ⟨written, ends, text⟩
  rcases allOrNothing_write reachable translated "let b" with ⟨done, same, _⟩
  rw [Action.after, ends] at same
  exact ⟨store, written, reachable, translated, ends, (done.mp ⟨written, ends⟩).2, same, text⟩

end Stack

end View

end ScriptView
