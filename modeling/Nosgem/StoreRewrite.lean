/-
This file shows that accepting a changed certificate rewrites exactly that host,
whatever the store looks like. `update_known_hosts_file` copies the file in the
pieces `fgets` delivers, so an overlong line is copied as several pseudo-lines
and the last line may lack its newline. The copies are pieces of the new file
again, one for one: a complete piece is copied to a complete piece, and what is
left behind the last complete one is shorter than the buffer, with or without a
record in its place.
-/

import Nosgem.Footprint
import Nosgem.Records

namespace Nosgem

open CText Interaction

/-- The bytes of a key that a store without NUL has an entry for. -/
theorem nulFree_of_lookup {store : Option Text} {hostport : Text} (nulFree : 0 ∉ store.getD [])
    (found : (lookup store hostport).isSome) : 0 ∉ hostport := by
  obtain ⟨known, first⟩ := Option.isSome_iff_exists.mp found
  obtain ⟨line, inStore, entry⟩ := List.mem_filterMap.mp (List.mem_of_find?_eq_some first)
  have same : fold known.hostport = fold hostport :=
    (strIEq_iff _ _).mp (by simpa using List.find?_some first)
  intro member
  have folded : (0 : Byte) ∈ fold known.hostport := same ▸ List.mem_map.mpr ⟨0, member, by decide⟩
  obtain ⟨c, inKey, equal⟩ := List.mem_map.mp folded
  have isNul : c = 0 := eq_of_toLower (by decide) equal
  exact nulFree (mem_of_mem_storePieces inStore (hostport_subset entry (isNul ▸ inKey)))

theorem ne_nil_of_lookup {store : Option Text} {hostport : Text}
    (found : (lookup store hostport).isSome) : hostport ≠ [] := by
  obtain ⟨known, first⟩ := Option.isSome_iff_exists.mp found
  obtain ⟨line, inStore, entry⟩ := List.mem_filterMap.mp (List.mem_of_find?_eq_some first)
  have same : fold known.hostport = fold hostport :=
    (strIEq_iff _ _).mp (by simpa using List.find?_some first)
  obtain ⟨rest, scanned⟩ := scanKnownHost_hostport (entryOf_eq_some entry)
  rintro rfl
  exact (scans_of_scanWord (by decide) scanned).some (List.map_eq_nil_iff.mp same)

/-- Accepting a changed certificate gives the key its new fingerprint, and every other key is looked
up as before. -/
theorem updateKnownHostsFile_rewrites (hostport fp : Text) (desk after : Desk)
    (nulFree : 0 ∉ (desk.disk .knownHosts).getD []) (solid : Solid hostport)
    (noComment : hostport.head? ≠ some hash) (fits : hostport.length ≤ 255)
    (found : (lookup (desk.disk .knownHosts) hostport).isSome) (print : HexPrint fp)
    (trace : List (Event Answer))
    (run : Steps fileEnv desk (updateKnownHostsFile hostport fp) trace after (.ret 0)) :
    lookup (after.disk .knownHosts) hostport = some ⟨hostport, text "SHA256", fp⟩ ∧
      ∀ other, fold other ≠ fold hostport →
        lookup (after.disk .knownHosts) other = lookup (desk.disk .knownHosts) other := by
  obtain ⟨-, -, stored⟩ := (ends_updateKnownHostsFile hostport fp desk).post_of_steps run
  have writable := print.writable solid (ne_nil_of_lookup found) fits
    (nulFree_of_lookup nulFree found)
  rw [stored]
  exact ⟨lookup_rewritten_self writable noComment nulFree found,
    fun other different => lookup_rewritten_of_ne writable nulFree found different⟩

/-- A store with a comment, two entries for the key and no newline at its end. -/
theorem updateKnownHostsFile_rewrites_unterminated :
    let store := text "# mine\nH:1965 SHA256 00\nb:1 SHA256 11\nh:1965 SHA256 22"
    let fp := List.replicate 64 (byte '0')
    ∃ trace after, Steps fileEnv ⟨fun _ => some store, []⟩
        (updateKnownHostsFile (text "h:1965") fp) trace after (.ret 0) ∧
      lookup (after.disk .knownHosts) (text "h:1965") =
        some ⟨text "h:1965", text "SHA256", fp⟩ ∧
      lookup (after.disk .knownHosts) (text "b:1") =
        some ⟨text "b:1", text "SHA256", text "11"⟩ := by
  intro store fp
  obtain ⟨rc, trace, after, run, rfl, -⟩ :=
    ((finishes_updateKnownHostsFile ⟨0⟩ (text "h:1965") fp).meets fileEnv_answers
      (ends_updateKnownHostsFile (text "h:1965") fp ⟨fun _ => some store, []⟩)).complete
  obtain ⟨self, others⟩ := updateKnownHostsFile_rewrites (text "h:1965") fp _ after (by decide)
    (by decide) (by decide) (by decide) (by decide) ⟨by decide, by decide⟩ trace run
  exact ⟨trace, after, run, self, (others (text "b:1") (by decide)).trans (by decide)⟩

end Nosgem
