import ThemeSheet.Main
import ThemeSheet.Proofs.Blocks.Freshness
import ThemeSheet.Proofs.Css.Written
import ThemeSheet.Proofs.Theme.Cleaned
import ThemeSheet.Proofs.Theme.Precedence
import ThemeSheet.Proofs.Theme.Runs
import ThemeSheet.Proofs.Tree.Apart
import ThemeSheet.Proofs.Theme.Absorption
import ThemeSheet.Proofs.Theme.Pathwise
import ThemeSheet.Proofs.Theme.Filtering
import ThemeSheet.Proofs.Theme.Shadowing
import ThemeSheet.Proofs.Theme.Repetition
import ThemeSheet.Proofs.Theme.StaleBlocks
import ThemeSheet.Proofs.Tree.Leaves
import ThemeSheet.Proofs.Theme.ScopeWrites
import ThemeSheet.Proofs.Theme.SectionContents
import ThemeSheet.Proofs.Theme.Recleaning
import ThemeSheet.Proofs.Theme.KeptStyles
import ThemeSheet.Proofs.Theme.Selection
import ThemeSheet.Proofs.Theme.KeptPresets
import ThemeSheet.Proofs.Theme.Returning
import ThemeSheet.Proofs.Command.Reading
import ThemeSheet.Proofs.Preset.ClassReferences
import ThemeSheet.Proofs.Theme.FilterTargets
import ThemeSheet.Proofs.Theme.StyleRules
import ThemeSheet.Proofs.Theme.RootRules
import ThemeSheet.Proofs.Css.Admission
import ThemeSheet.Proofs.Schema.Meeting
import ThemeSheet.Proofs.Schema.Intersection
import ThemeSheet.Proofs.Theme.FirstVersion
import ThemeSheet.Proofs.Preset.SlugOrder
import ThemeSheet.Proofs.Preset.DeclaredOnce
import ThemeSheet.Proofs.Schema.Expansion
import ThemeSheet.Proofs.Slug.Recutting
import ThemeSheet.Proofs.Slug.Coverage
import ThemeSheet.Proofs.Preset.NameAlphabet
import ThemeSheet.Proofs.Preset.FilterDocument
import ThemeSheet.Proofs.Tree.Lens
import ThemeSheet.Proofs.Selector
