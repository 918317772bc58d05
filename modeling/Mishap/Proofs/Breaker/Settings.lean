import Mishap.Breaker
import Mishap.Proofs.Report.ReadBack
import Mishap.Proofs.Time.Span

/-!
# Settings of breakers read back

The settings of a breaker are written with their timeout as a text of parts. However large the
timeout is, its parts are read as the span again, and the text of the settings as the settings
(`BreakerSettings.settings_readBack`).
-/

namespace Mishap.BreakerSettings

/-- The limit and the timeout are in the ranges of their types. -/
structure Valid (s : BreakerSettings) : Prop where
  maxFailures : s.maxFailures < 0x100000000
  timeout : s.timeout.Valid

/-- Settings with numbers of their width fit their shape. -/
theorem Valid.fits {s : BreakerSettings} (h : s.Valid) :
    Schema.Fits (.record .breakerSettings) s.toJson := by
  have hspan : Schema.spanOf s.timeout.text = .ok (.string s.timeout.text) := by
    rw [Schema.spanOf, Time.Span.read?_text h.timeout]
  have hshows : Schema.ShowsAll Schema.Record.breakerSettings.fields
      [some (.nat s.maxFailures), some (.string s.timeout.text)] :=
    .cons (.given (.natural h.maxFailures) rfl) <| .cons (.given (.span hspan) rfl) .nil
  exact .of_shown hshows

/-- Settings are read back from their exported form. -/
theorem Valid.ofJson?_toJson {s : BreakerSettings} (h : s.Valid) : ofJson? s.toJson = some s := by
  change (Time.Span.read? s.timeout.text).bind _ = _
  rw [Time.Span.read?_text h.timeout]
  rfl

/-- Both texts that are written for valid settings are read as those settings. The parts of the
timeout add up to it without any product or sum that leaves its range, and so its text is read as
the timeout. -/
theorem settings_readBack {s : BreakerSettings} (h : s.Valid) :
    (∀ text, text = s.toJson.compact ∨ text = s.toJson.pretty →
      (Format.json.read (.record .breakerSettings) text).map ofJson? = .ok (some s)) ∧
      Time.Span.AddsUp ⟨0, 0⟩ (s.timeout.parts.filter (0 < ·.1)) s.timeout ∧
      Time.Span.read? s.timeout.text = some s.timeout := by
  refine ⟨fun text htext => ?_, ?_, Time.Span.read?_text h.timeout⟩
  · have hspells := Json.spells_of_written h.fits.integral htext
    have hdeepest : Json.deepest text = 1 := Json.deepest_of_spells hspells
    exact (readsBack_of_spells h.fits hspells h.ofJson?_toJson).shallow (by omega)
  · exact (Time.Span.addsUp_parts h.timeout).filter (s := ⟨0, 0⟩) ⟨by decide, by decide⟩

/-- The settings with the highest limit and the longest timeout. -/
def widest : BreakerSettings := ⟨0xFFFFFFFF, 0xFFFFFFFFFFFFFFFF, 999999999⟩

example : widest.timeout.text = "584542046090years 7months 15days 17h 5m 3s 999ms 999us 999ns" := by
  cbv

/-- The widest numbers are read back. -/
theorem readBack_widest :
    widest.Valid ∧
      (Format.json.read (.record .breakerSettings) widest.toJson.compact).map ofJson? =
        .ok (some widest) ∧
      Time.Span.read? widest.timeout.text = some widest.timeout := by
  have hvalid : widest.Valid := ⟨by decide, by decide, by decide⟩
  obtain ⟨htexts, -, htimeout⟩ := settings_readBack hvalid
  exact ⟨hvalid, htexts _ (.inl rfl), htimeout⟩

end Mishap.BreakerSettings
