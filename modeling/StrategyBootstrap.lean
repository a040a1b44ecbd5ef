import StrategyBootstrap.Spec.Python
import StrategyBootstrap.Spec.Utf8
import StrategyBootstrap.Spec.Path
import StrategyBootstrap.Spec.FileTree
import StrategyBootstrap.Spec.Loader
import StrategyBootstrap.Spec.Registry
import StrategyBootstrap.Spec.Usage
import StrategyBootstrap.Spec.Main
import StrategyBootstrap.Proofs.Fold
import StrategyBootstrap.Proofs.Registry
import StrategyBootstrap.Proofs.Calls
import StrategyBootstrap.Proofs.Effects
import StrategyBootstrap.Proofs.Layout
import StrategyBootstrap.Proofs.Discovery
import StrategyBootstrap.Proofs.Main
import StrategyBootstrap.Proofs.Confinement
import StrategyBootstrap.Proofs.Integrity
import StrategyBootstrap.Proofs.Idempotence
import StrategyBootstrap.Proofs.Usage
import StrategyBootstrap.Spec.Onboard
import StrategyBootstrap.Proofs.Frame
import StrategyBootstrap.Proofs.Onboard
