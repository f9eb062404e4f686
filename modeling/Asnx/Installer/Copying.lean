import Asnx.Installer.Caches
import Asnx.Installer.Soundness

/-!
# What copying a file does

At every moment of `copy_file_atomic` the `.tmp` sibling holds a beginning of the source, or what
it held before, and the destination holds what it held before, or all of the source, or it is gone
(`triple_copyFileAtomic`).
-/

namespace Asnx.Installer

open Interrupted Files

section Copying

variable {files₀ : Contents} {notes₀ : List Note} {path sibling : Path} {source : Bytes}
    {src dst : Bytes}

/-- The content is a beginning of what the file holds. -/
def BeginningOf (files : Contents) (path : Path) (content : Bytes) : Prop :=
  ∃ source, files path = some source ∧ content <+: source

theorem prefixClosed_beginningOf : PrefixClosed (BeginningOf files₀ path) := by
  rintro a b hprefix ⟨source, hsource, ha⟩
  exact ⟨source, hsource, hprefix.trans ha⟩

theorem beginningOf_take (hsource : files₀ path = some source) (pos : Nat) :
    BeginningOf files₀ path (source.take pos) :=
  ⟨source, hsource, List.take_prefix _ _⟩

/-- The sibling is a copy of all of the source, or of a beginning of it if something has gone
wrong. -/
def Copying (files₀ : Contents) (notes₀ : List Note) (path sibling : Path)
    (source : Bytes) (ok : Bool)
    (v : View Memory) : Prop :=
  if ok then At (Filling files₀ notes₀ sibling source) v
  else At (SomeFilling files₀ notes₀ sibling (BeginningOf files₀ path)) v

theorem Copying.toSome {ok : Bool} {v : View Memory}
    (h : Copying files₀ notes₀ path sibling source ok v)
    (hsource : files₀ path = some source) :
    At (SomeFilling files₀ notes₀ sibling (BeginningOf files₀ path)) v := by
  cases ok with
  | false => exact h
  | true => exact Filling.toSome h ⟨source, hsource, List.prefix_refl _⟩

/-- The loop copies what is left of the source, by induction on the rounds. -/
theorem triple_copyLoop (hpath : path ≠ sibling) (hsource : files₀ path = some source)
    (rounds pos : Nat) (err : Bool) :
    Triple (At (Filling files₀ notes₀ sibling (source.take pos)))
      (copyLoop ⟨sibling⟩ rounds ⟨path, pos, err⟩)
      (Copying files₀ notes₀ path sibling source)
      (At (SomeFilling files₀ notes₀ sibling (BeginningOf files₀ path))) := by
  induction rounds generalizing pos err with
  | zero => exact triple_hang fun v hv => hv.toSome (beginningOf_take hsource pos)
  | succ rounds ih =>
      unfold copyLoop
      refine triple_bind (R := fun r v => (∃ err, r.2 = ⟨path, pos + r.1.length, err⟩ ∧
        r.1 <+: (source.drop pos).take zipIoBytes ∧
        (err = false → r.1 = (source.drop pos).take zipIoBytes)) ∧
          At (Filling files₀ notes₀ sibling (source.take pos)) v) ?_ ?_
      · refine triple_fread fun v got err hv hpart hwhole => ?_
        have hcontent : v.files path = some source := by
          rw [hv.1, Function.update_of_ne hpath, hsource]
        rw [hcontent] at hpart hwhole
        exact ⟨⟨⟨err, rfl, hpart, hwhole⟩, hv⟩, hv.toSome (beginningOf_take hsource pos)⟩
      rintro ⟨got, fp⟩
      refine .assume ?_
      rintro ⟨err', hfp, hpart, hwhole⟩
      dsimp only at hfp hpart hwhole
      subst hfp
      -- what has been written stays a beginning of the source
      have hlonger : source.take pos ++ got = source.take (pos + got.length) := by
        rw [List.take_add, ← List.prefix_iff_eq_take.1 (hpart.trans (List.take_prefix _ _))]
      have hwrite : Triple (At (Filling files₀ notes₀ sibling (source.take pos)))
          (if got ≠ [] then fwrite ⟨sibling⟩ got else pure true)
          (fun ok v => if ok then At (Filling files₀ notes₀ sibling (source.take pos ++ got)) v
            else At (SomeFilling files₀ notes₀ sibling (BeginningOf files₀ path)) v)
          (At (SomeFilling files₀ notes₀ sibling (BeginningOf files₀ path))) := by
        refine triple_ite (fun _ => triple_fwrite_filling prefixClosed_beginningOf ?_) fun hnil =>
          triple_pure fun v hv => ?_
        · rw [hlonger]
          exact beginningOf_take hsource _
        · rw [not_not.1 hnil, List.append_nil]
          exact hv
      refine triple_bind hwrite fun wrote => ?_
      cases wrote with
      | false => exact triple_pure fun v hv => hv
      | true =>
          refine triple_ite (fun h => by cases h) fun _ => ?_
          -- a short piece is the last one, unless the read has failed
          refine triple_ite (fun hshort => triple_pure fun v hv => ?_) fun _ => ?_
          · rw [if_pos rfl] at hv
            cases err' with
            | true => exact ⟨_, hlonger ▸ beginningOf_take hsource _, hv⟩
            | false =>
                have hrest : got = source.drop pos := by
                  rw [hwhole rfl] at hshort ⊢
                  rw [List.length_take] at hshort
                  exact List.take_of_length_le (by omega)
                rw [hrest, List.take_append_drop] at hv
                exact hv
          · rw [hlonger]
            exact ih _ _

/-- `copy_file_atomic` up to the replacement. -/
theorem triple_fillCopy_beginning (rounds : Nat) (hsibling : resolve src ≠ resolve (tmpOf dst)) :
    Triple (At (Exactly files₀ notes₀)) (fillCopy rounds src dst)
      (fun r v => if r then ∃ content, files₀ (resolve src) = some content ∧
          At (Filling files₀ notes₀ (resolve (tmpOf dst)) content) v
        else At (Attempted files₀ notes₀ (resolve (tmpOf dst)) (BeginningOf files₀ (resolve src)))
          v)
      (At (Attempted files₀ notes₀ (resolve (tmpOf dst)) (BeginningOf files₀ (resolve src)))) := by
  have hstop : ∀ v, At (Exactly files₀ notes₀) v →
      At (Attempted files₀ notes₀ (resolve (tmpOf dst)) (BeginningOf files₀ (resolve src))) v :=
    fun v hv => hv.attempted
  have hfails : ∀ {format args}, Triple (At (Exactly files₀ notes₀)) (fails format args)
      (fun r v => if r then ∃ content, files₀ (resolve src) = some content ∧
          At (Filling files₀ notes₀ (resolve (tmpOf dst)) content) v
        else At (Attempted files₀ notes₀ (resolve (tmpOf dst)) (BeginningOf files₀ (resolve src)))
          v)
      (At (Attempted files₀ notes₀ (resolve (tmpOf dst)) (BeginningOf files₀ (resolve src)))) :=
    triple_fails.post fun r v hv => by
      rw [hv.1]
      exact Exactly.attempted hv.2
  -- until the sibling has been opened nothing has changed
  have hclose : ∀ input : InFile, Triple (At (Exactly files₀ notes₀)) (fcloseRead input)
      (fun _ => At (Exactly files₀ notes₀))
      (At (Attempted files₀ notes₀ (resolve (tmpOf dst)) (BeginningOf files₀ (resolve src)))) :=
        fun input =>
    triple_fcloseRead fun v hv => ⟨hv, hstop v hv⟩
  refine triple_bind (Triple.mono (triple_of_stays_empty (P := Exactly files₀ notes₀)
    stays_createParentDirectories) (fun _ hv => hv) (fun _ _ hv => hv) hstop) fun made => ?_
  refine triple_ite (fun _ => triple_pure fun v hv => hstop v hv) fun _ => ?_
  refine triple_bind (R := OrFailed (At (Exactly files₀ notes₀)) fun input v =>
    (input = ⟨resolve src, 0, false⟩ ∧ ∃ content, files₀ (resolve src) = some content) ∧
      At (Exactly files₀ notes₀) v)
    (triple_fopenRead (fun v e hv => ⟨hv, hstop v hv⟩) fun v content hv hcontent => ?_) fun r => ?_
  · rw [hv.1] at hcontent
    exact ⟨⟨⟨rfl, content, hcontent⟩, hv⟩, hstop v hv⟩
  cases r with
  | error => exact hfails
  | ok input =>
      refine .assume ?_
      rintro ⟨rfl, content, hcontent⟩
      -- from here on a cut leaves a beginning of the source in the sibling
      have hnil : BeginningOf files₀ (resolve src) [] := beginningOf_take hcontent 0
      refine triple_ite (fun _ => triple_bind (hclose _) fun _ => hfails) fun _ => ?_
      refine triple_bind (R := OrFailed (At (Exactly files₀ notes₀)) fun out v =>
        out = ⟨resolve (tmpOf dst)⟩ ∧ At (Filling files₀ notes₀ (resolve (tmpOf dst)) []) v)
        (triple_fopenWrite (fun v _ hv => ⟨hv, hstop v hv⟩) fun v hv => ?_) fun r => ?_
      · have hopened : At (Filling files₀ notes₀ (resolve (tmpOf dst)) [])
          (v.set (resolve (tmpOf dst)) (some [])) := by
          refine ⟨?_, hv.2⟩
          rw [set_files, hv.1]
        exact ⟨⟨rfl, hopened⟩, (hopened.toSome hnil).attempted⟩
      cases r with
      | error => exact triple_bind (hclose _) fun _ => hfails
      | ok out =>
          refine .assume ?_
          rintro rfl
          refine triple_bind (R := fun _ => At (Filling files₀ notes₀ (resolve (tmpOf dst)) []))
            (triple_chance fun v b hv => ⟨hv, (hv.toSome hnil).attempted⟩) fun buf => ?_
          refine triple_bind (R := Copying files₀ notes₀ (resolve src)
            (resolve (tmpOf dst)) content)
            (triple_ite (fun _ => ?_) fun _ => triple_pure fun v hv => hv.toSome hnil) fun ok => ?_
          · exact Triple.mono (triple_copyLoop hsibling hcontent rounds 0 false) (fun _ hv => hv)
              (fun _ _ hv => hv)
              fun v hv => hv.attempted
          refine triple_bind (R := fun closed =>
            Copying files₀ notes₀ (resolve src) (resolve (tmpOf dst)) content
            (ok && closed)) (triple_flush (fun v old n hv hold => ?_) fun v b hv =>
              ⟨?_, (hv.toSome hcontent).attempted⟩) fun closed => ?_
          · -- a flush that is cut keeps a beginning of what had been written
            obtain ⟨content', hcontent', hfilling⟩ := hv.toSome hcontent
            obtain rfl := Filling.content_eq hfilling hold
            have hpart := (Filling.set hfilling).toSome
              (prefixClosed_beginningOf _ _ (List.take_prefix n old) hcontent')
            rw [Bool.and_false]
            exact ⟨hpart, hpart.attempted⟩
          · cases b with
            | false =>
                rw [Bool.and_false]
                exact hv.toSome hcontent
            | true =>
                rw [Bool.and_true]
                exact hv
          refine triple_bind (R := fun _ =>
            Copying files₀ notes₀ (resolve src) (resolve (tmpOf dst)) content
            (ok && closed)) (triple_fcloseRead fun v hv =>
              ⟨hv, (hv.toSome hcontent).attempted⟩) fun _ => ?_
          cases ok && closed with
          | false =>
              exact (triple_discard.pre fun v hv => SomeFilling.attempted hv).post fun r v hv => by
                rw [hv.1]
                exact hv.2
          | true => exact triple_pure fun v hv => ⟨content, hcontent, hv⟩

/-- `copy_file_atomic` replaces the destination by the source, or is underway with it. -/
theorem triple_copyFileAtomic (rounds : Nat) (hsibling : resolve src ≠ resolve (tmpOf dst)) :
    Triple (At (Exactly files₀ notes₀)) (copyFileAtomic rounds src dst)
      (fun r v => if r then ∃ content, files₀ (resolve src) = some content ∧
        At (Replaced files₀ dst content) v
        else At (Underway files₀ dst (BeginningOf files₀ (resolve src))) v)
      (At (Underway files₀ dst (BeginningOf files₀ (resolve src)))) := by
  refine triple_bind ((triple_fillCopy_beginning rounds hsibling).mono (fun _ hv => hv)
    (fun _ _ hv => hv)
    fun v hv => hv.underway) fun filled => ?_
  cases filled with
  | false => exact triple_pure fun v hv => Attempted.underway hv
  | true =>
      refine triple_ite (fun h => absurd h Bool.false_ne_true) fun _ => ?_
      refine Triple.pre (P := fun v => ∃ content, files₀ (resolve src) = some content ∧
        At (Filling files₀ notes₀ (resolve (tmpOf dst)) content) v)
          (.exists fun content => .assume fun hcontent => ?_)
        fun v hv => hv
      have hwhole : BeginningOf files₀ (resolve src) content :=
        ⟨content, hcontent, List.prefix_refl _⟩
      exact (triple_replaceFile hwhole).post fun r v hv => by
        cases r with
        | false => exact hv
        | true => exact ⟨content, hcontent, hv⟩

end Copying

end Asnx.Installer
