import MiraclesAdmin.Transition
import MiraclesAdmin.ObjectHeap
import MiraclesAdmin.KeyedWrites
import MiraclesAdmin.PathStore
import MiraclesAdmin.BufferedLog
import MiraclesAdmin.SwiftText
import MiraclesAdmin.PriceTexts
import MiraclesAdmin.ProductRecords
import MiraclesAdmin.CategoryStore
import MiraclesAdmin.ProductList
import MiraclesAdmin.RowAgreement
import MiraclesAdmin.CategoryMirror
import MiraclesAdmin.SearchResults
import MiraclesAdmin.ProductForm
import MiraclesAdmin.DetailView
import MiraclesAdmin.ProductsScreen
import MiraclesAdmin.ScreenSteps
import MiraclesAdmin.ScreenObjects
import MiraclesAdmin.ViewSteps
import MiraclesAdmin.WriteTargeting
import MiraclesAdmin.SaveCompletion
import MiraclesAdmin.EditMode
import MiraclesAdmin.CancelUndo
import MiraclesAdmin.DiscountFields
import MiraclesAdmin.ProgressHUD
import MiraclesAdmin.PanelHUD
import MiraclesAdmin.AddPopup
import MiraclesAdmin.PopupClosing
import MiraclesAdmin.PriceFilter
import MiraclesAdmin.RecordFormat
import MiraclesAdmin.CategoryScreen
import MiraclesAdmin.CategoryWrites
import MiraclesAdmin.AdminNetwork
import MiraclesAdmin.NetworkSteps
import MiraclesAdmin.LostUpdates
import MiraclesAdmin.ConfirmedDeletions
import MiraclesAdmin.StoredRecords
import MiraclesAdmin.ObserverSurvival
import MiraclesAdmin.RequestOrigins
import MiraclesAdmin.FreshAdditions
import MiraclesAdmin.RevivedRecords
import MiraclesAdmin.StoredPictures
import MiraclesAdmin.UnkeyedWrites
import MiraclesAdmin.CurrentLists
import MiraclesAdmin.FilledRecords
import MiraclesAdmin.DatabasePaths
import MiraclesAdmin.CellPictures
import MiraclesAdmin.OwnPictures
import MiraclesAdmin.LoginSession
import MiraclesAdmin.RememberedLogin
import MiraclesAdmin.MessageLog
import MiraclesAdmin.MessageDurability
